import RiscvScratch.Core.Alu

/-! Address geometry of `icache.v` and `dcache.v`, `| tag | index (log2 LINES) | word (log2
LINE_WORDS) | byte |`, and the line memory behind them. -/
namespace RiscvScratch.Cache

/-- The two parameters, by their logarithms: `LINES = 2 ^ idxBits`,
`LINE_WORDS = 2 ^ wordBits`. -/
structure Geometry where
  idxBits : ℕ
  wordBits : ℕ

/-- A line, by word position; only the first `LINE_WORDS` positions exist. -/
abbrev Line := ℕ → Word

namespace Geometry
variable (g : Geometry)

def lines : ℕ := 2 ^ g.idxBits

def lineWords : ℕ := 2 ^ g.wordBits

/-- `OFF`: word and byte bits. -/
def off : ℕ := g.wordBits + 2

variable (addr : Word)

/-- The line number, `addr[31:OFF]`. -/
def lineOf : ℕ := addr.toNat / 2 ^ g.off

def idx : ℕ := g.lineOf addr % g.lines

def tag : ℕ := g.lineOf addr / g.lines

def word : ℕ := addr.toNat / 4 % g.lineWords

def lineNum (tag idx : ℕ) : ℕ := tag * g.lines + idx

def lineAddr (tag idx : ℕ) : Word := BitVec.ofNat 32 (g.lineNum tag idx * 2 ^ g.off)

theorem lines_pos : 0 < g.lines := Nat.two_pow_pos _

theorem lineWords_pos : 0 < g.lineWords := Nat.two_pow_pos _

theorem two_pow_off : 2 ^ g.off = 4 * g.lineWords := by
  simp only [off, lineWords, pow_add]
  omega

theorem idx_lt : g.idx addr < g.lines := Nat.mod_lt _ g.lines_pos

theorem word_lt : g.word addr < g.lineWords := Nat.mod_lt _ g.lineWords_pos

theorem lineOf_eq : g.lineOf addr = addr.toNat / 4 / g.lineWords := by
  rw [lineOf, two_pow_off, Nat.div_div_eq_div_mul]

theorem lineNum_tag_idx : g.lineNum (g.tag addr) (g.idx addr) = g.lineOf addr := by
  rw [lineNum, tag, idx, mul_comm]
  exact Nat.div_add_mod _ _

theorem wordIndex_eq : addr.toNat / 4 = g.lineOf addr * g.lineWords + g.word addr := by
  rw [lineOf_eq, word, mul_comm]
  exact (Nat.div_add_mod _ _).symm

theorem lineNum_mod (t : ℕ) {i : ℕ} (hi : i < g.lines) : g.lineNum t i % g.lines = i := by
  rw [lineNum, mul_comm, Nat.mul_add_mod, Nat.mod_eq_of_lt hi]

theorem lineNum_div (t : ℕ) {i : ℕ} (hi : i < g.lines) : g.lineNum t i / g.lines = t := by
  rw [lineNum, mul_comm, Nat.mul_add_div g.lines_pos, Nat.div_eq_of_lt hi, add_zero]

def Fits (tag idx : ℕ) : Prop := g.lineNum tag idx * 2 ^ g.off < 2 ^ 32

theorem fits_addr : g.Fits (g.tag addr) (g.idx addr) := by
  rw [Fits, lineNum_tag_idx, lineOf]
  exact lt_of_le_of_lt (Nat.div_mul_le_self _ _) addr.isLt

theorem lineOf_lineAddr {tag idx : ℕ} (h : g.Fits tag idx) :
    g.lineOf (g.lineAddr tag idx) = g.lineNum tag idx := by
  rw [lineOf, lineAddr, BitVec.toNat_ofNat, Nat.mod_eq_of_lt h,
    Nat.mul_div_cancel _ (Nat.two_pow_pos _)]

end Geometry

abbrev MainMemory := ℕ → Word

namespace MainMemory
variable (g : Geometry) (m : MainMemory)

def readLine (addr : Word) : Line := fun k => m (g.lineOf addr * g.lineWords + k)

def writeLine (addr : Word) (line : Line) : MainMemory := fun w =>
  if w / g.lineWords = g.lineOf addr then line (w % g.lineWords) else m w

theorem writeLine_of_ne {addr : Word} {line : Line} {w : ℕ}
    (h : w / g.lineWords ≠ g.lineOf addr) : m.writeLine g addr line w = m w := by
  rw [writeLine, if_neg h]

theorem writeLine_line {addr : Word} {line : Line} {k : ℕ} (hk : k < g.lineWords) :
    m.writeLine g addr line (g.lineOf addr * g.lineWords + k) = line k := by
  have hd : (g.lineOf addr * g.lineWords + k) / g.lineWords = g.lineOf addr := by
    rw [mul_comm, Nat.mul_add_div g.lineWords_pos, Nat.div_eq_of_lt hk, add_zero]
  rw [writeLine, if_pos hd, mul_comm, Nat.mul_add_mod, Nat.mod_eq_of_lt hk]

end MainMemory

def mergeBytes (we : BitVec 4) (wdata old : Word) : Word :=
  (if we.getLsbD 3 then wdata.extractLsb' 24 8 else old.extractLsb' 24 8) ++
  (if we.getLsbD 2 then wdata.extractLsb' 16 8 else old.extractLsb' 16 8) ++
  (if we.getLsbD 1 then wdata.extractLsb' 8 8 else old.extractLsb' 8 8) ++
  (if we.getLsbD 0 then wdata.extractLsb' 0 8 else old.extractLsb' 0 8)

/-- Byte lane `k` of a word. -/
def lane (w : Word) (k : ℕ) : BitVec 8 := w.extractLsb' (8 * k) 8

private theorem extract_cat (a b c d : BitVec 8) :
    (a ++ b ++ c ++ d).extractLsb' 24 8 = a ∧ (a ++ b ++ c ++ d).extractLsb' 16 8 = b ∧
    (a ++ b ++ c ++ d).extractLsb' 8 8 = c ∧ (a ++ b ++ c ++ d).extractLsb' 0 8 = d := by
  refine ⟨?_, ?_, ?_, ?_⟩
  all_goals
    ext j hj
    simp only [BitVec.getElem_extractLsb']
    grind

theorem lane_mergeBytes (we : BitVec 4) (wdata old : Word) {k : ℕ} (hk : k < 4) :
    lane (mergeBytes we wdata old) k = if we.getLsbD k then lane wdata k else lane old k := by
  unfold lane mergeBytes
  interval_cases k
  · exact (extract_cat _ _ _ _).2.2.2
  · exact (extract_cat _ _ _ _).2.2.1
  · exact (extract_cat _ _ _ _).2.1
  · exact (extract_cat _ _ _ _).1

end RiscvScratch.Cache
