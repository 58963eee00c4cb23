import Mathlib.Data.BitVec
import RiscvScratch.Image.FlashCheck

/-! BOOT.BIN's partition table (bootbin.c, `bootbin_parse`). A load outside the buffer is an error
of its own, apart from the parser's refusals. -/
namespace RiscvScratch.Rvbi

open ByteMem

/-- A load at an offset from `base`, or the offset that lies outside the buffer. -/
abbrev Checked := Except ℕ

def byteAt (buf : List (BitVec 8)) (k : ℕ) : Checked (BitVec 8) :=
  match buf[k]? with
  | some b => .ok b
  | none => .error k

def b16At (buf : List (BitVec 8)) (k : ℕ) : Checked (BitVec 32) := do
  let lo ← byteAt buf k
  let hi ← byteAt buf (k + 1)
  return lo.setWidth 32 ||| hi.setWidth 32 <<< 8

def b32At (buf : List (BitVec 8)) (k : ℕ) : Checked (BitVec 32) := do
  let lo ← b16At buf k
  let hi ← b16At buf (k + 2)
  return lo ||| hi <<< 16

/-- `w32`: a word load of the same four bytes. -/
def w32At (buf : List (BitVec 8)) (k : ℕ) : Checked (BitVec 32) := b32At buf k

def bytesAt (buf : List (BitVec 8)) (k : ℕ) : ℕ → Checked (List (BitVec 8))
  | 0 => .ok []
  | n + 1 => do
    let b ← byteAt buf k
    let l ← bytesAt buf (k + 1) n
    return b :: l

def crc32UpdateAt (crc : BitVec 32) (buf : List (BitVec 8)) (k n : ℕ) : Checked (BitVec 32) := do
  let l ← bytesAt buf k n
  return crc32Update crc l

def rvbiOkAt (buf : List (BitVec 8)) (d : ℕ) (room : BitVec 32) : Checked (Option (BitVec 32)) := do
  if room < 32#32 then return none
  let magic ← b32At buf d
  if magic ≠ rvbiMagic then return none
  let nseg ← b16At buf (d + 6)
  let clen ← b16At buf (d + 16)
  let dsize ← b32At buf (d + 20)
  let hcrc ← b32At buf (d + 28)
  if nseg = 0#32 ∨ nseg > 8#32 then return none
  let size := 32#32 + 12#32 * nseg + clen
  if size > room then return none
  let c ← crc32UpdateAt 0#32 buf d 28
  let c := crc32Update c (List.replicate 4 0#8)
  let c ← crc32UpdateAt c buf (d + 32) (size - 32#32).toNat
  if c ≠ hcrc ∨ dsize > room - size then return none
  return some (size + dsize)

inductive Refusal where
  | tooShort | noBootHeader | tableOffsets | partitionCount | checksum | pastTheEnd
  | noBitstream | noImage
  deriving DecidableEq, Repr

def Refusal.why : Refusal → String
  | .tooShort => "too short for a boot header"
  | .noBootHeader => "no boot header (0xaa995566, \"XNLX\" at 0x20)"
  | .tableOffsets => "header table offsets out of range"
  | .partitionCount => "partition count out of range"
  | .checksum => "a partition header's checksum is wrong"
  | .pastTheEnd => "a partition lies past the end"
  | .noBitstream => "no bitstream (a partition for the PL)"
  | .noImage => "no RISC-V image (a partition starting \"RVBI\" with a good header CRC)"

/-- `struct bootbin`, its pointers as offsets from `base`. -/
structure Bootbin where
  bit : Option (BitVec 32)
  bitWords : BitVec 32
  img : Option (BitVec 32)
  imgBytes : BitVec 32
  nparts : BitVec 32
  deriving DecidableEq

/-- The sum of the first `n` words at `base + h`. -/
def sumAt (buf : List (BitVec 8)) (h : ℕ) : ℕ → Checked (BitVec 32)
  | 0 => .ok 0#32
  | n + 1 => do
    let sum ← sumAt buf h n
    let w ← w32At buf (h + 4 * n)
    return sum + w

def partition (buf : List (BitVec 8)) (size : BitVec 32) (h : ℕ) (out : Bootbin) :
    Checked (Except Refusal Bootbin) := do
  let sum ← sumAt buf h 15
  let check ← w32At buf (h + 60)
  if ~~~sum ≠ check then return .error .checksum
  let words ← w32At buf (h + 4)
  let off ← w32At buf (h + 20)
  let attr ← w32At buf (h + 24)
  if off > size / 4#32 ∨ words > size / 4#32 - off then return .error .pastTheEnd
  let d := 4#32 * off
  if attr &&& 0x70#32 = 0x20#32 then
    if out.bit = none then return .ok { out with bit := some d, bitWords := words }
    else return .ok out
  else if out.img = none then
    match ← rvbiOkAt buf d.toNat (4#32 * words) with
    | some bytes => return .ok { out with img := some d, imgBytes := bytes }
    | none => return .ok out
  else return .ok out

/-- The loop over the partition headers, `k` of them left from number `i`. -/
def partitions (buf : List (BitVec 8)) (size pt : BitVec 32) :
    ℕ → ℕ → Bootbin → Checked (Except Refusal Bootbin)
  | 0, _, out => .ok (.ok out)
  | k + 1, i, out => do
    match ← partition buf size (pt.toNat + 64 * i) out with
    | .error e => return .error e
    | .ok out => partitions buf size pt k (i + 1) out

def bootbinParse (buf : List (BitVec 8)) : Checked (Except Refusal Bootbin) := do
  let size := BitVec.ofNat 32 buf.length
  if size < 0xa0#32 then return .error .tooShort
  let width ← w32At buf 0x20
  if width ≠ 0xaa995566#32 then return .error .noBootHeader
  let ident ← w32At buf 0x24
  if ident ≠ 0x584c4e58#32 then return .error .noBootHeader
  let it ← w32At buf 0x98
  let pt ← w32At buf 0x9c
  if it % 4#32 ≠ 0#32 ∨ pt % 4#32 ≠ 0#32 ∨ it > size - 8#32 ∨ pt > size - 64#32 then
    return .error .tableOffsets
  let n ← w32At buf (it.toNat + 4)
  if n = 0#32 ∨ n > 32#32 ∨ n > (size - pt) / 64#32 then return .error .partitionCount
  match ← partitions buf size pt n.toNat 0 ⟨none, 0#32, none, 0#32, 0#32⟩ with
  | .error e => return .error e
  | .ok out =>
    if out.bit = none then return .error .noBitstream
    else if out.img = none then return .error .noImage
    else return .ok { out with nparts := n }

/-- No load of `x` falls outside the buffer, and its value satisfies `Q`. -/
def Loads {α : Type} (x : Checked α) (Q : α → Prop) : Prop := ∃ a, x = .ok a ∧ Q a

variable {α : Type}

theorem Loads.pure {Q : α → Prop} {a : α} (h : Q a) : Loads (Pure.pure a) Q :=
  ⟨a, rfl, h⟩

theorem Loads.bind {β : Type} {x : Checked α} {f : α → Checked β} {P : α → Prop} {Q : β → Prop}
    (h : Loads x P) (hf : ∀ a, P a → Loads (f a) Q) : Loads (x >>= f) Q := by
  obtain ⟨a, rfl, ha⟩ := h
  exact hf a ha

theorem Loads.ite {p : Prop} [Decidable p] {x y : Checked α} {Q : α → Prop}
    (hx : p → Loads x Q) (hy : ¬p → Loads y Q) : Loads (if p then x else y) Q := by
  by_cases h : p
  · rw [if_pos h]; exact hx h
  · rw [if_neg h]; exact hy h

section Parse

variable {buf : List (BitVec 8)}

variable {k n : ℕ} {size : BitVec 32}

theorem byteAt_loads (h : k < buf.length) :
    Loads (byteAt buf k) fun b => b = buf.getD k 0#8 := by
  refine ⟨buf.getD k 0#8, ?_, rfl⟩
  rw [byteAt, List.getD_eq_getElem?_getD, List.getElem?_eq_getElem h]
  rfl

theorem b16At_loads (h : k + 2 ≤ buf.length) :
    Loads (b16At buf k) fun w => w = b16 buf k := by
  refine (byteAt_loads (by omega)).bind ?_
  rintro lo rfl
  refine (byteAt_loads (by omega)).bind ?_
  rintro hi rfl
  exact Loads.pure rfl

theorem b32At_loads (h : k + 4 ≤ buf.length) :
    Loads (b32At buf k) fun w => w = b32 buf k := by
  refine (b16At_loads (by omega)).bind ?_
  rintro lo rfl
  refine (b16At_loads (by omega)).bind ?_
  rintro hi rfl
  exact Loads.pure rfl

theorem bytesAt_loads :
    ∀ {k : ℕ}, k + n ≤ buf.length → Loads (bytesAt buf k n) fun l => l = (buf.drop k).take n := by
  induction n with
  | zero => exact fun _ => ⟨[], rfl, rfl⟩
  | succ n ih =>
    intro k h
    refine (byteAt_loads (by omega)).bind ?_
    rintro b rfl
    refine (ih (k := k + 1) (by omega)).bind ?_
    rintro l rfl
    refine Loads.pure ?_
    have hk : k < buf.length := by omega
    rw [List.drop_eq_getElem_cons hk, List.take_succ_cons, List.getD_eq_getElem?_getD,
      List.getElem?_eq_getElem hk]
    rfl

theorem crc32UpdateAt_loads {crc : BitVec 32} (h : k + n ≤ buf.length) :
    Loads (crc32UpdateAt crc buf k n) fun c => c = crc32Update crc ((buf.drop k).take n) := by
  refine (bytesAt_loads h).bind ?_
  rintro l rfl
  exact Loads.pure rfl

theorem b16_drop (d k : ℕ) : b16 buf (d + k) = b16 (buf.drop d) k := by
  simp only [b16, List.getD_eq_getElem?_getD, List.getElem?_drop, Nat.add_assoc]

theorem b32_drop (d k : ℕ) : b32 buf (d + k) = b32 (buf.drop d) k := by
  rw [b32, b32, Nat.add_assoc, b16_drop, b16_drop]

theorem rvbiOkAt_loads {d : ℕ} {room : BitVec 32} (h : d + room.toNat ≤ buf.length) :
    Loads (rvbiOkAt buf d room) fun r => r = rvbiOk (buf.drop d) room := by
  unfold rvbiOkAt rvbiOk
  refine Loads.ite (fun hroom => Loads.pure (if_pos (Or.inl hroom)).symm) fun hroom => ?_
  have hmin : 32 ≤ room.toNat := BitVec.not_lt.mp hroom
  refine (b32At_loads (by omega)).bind ?_
  rintro magic rfl
  have hm : b32 buf d = b32 (buf.drop d) 0 := b32_drop d 0
  rw [hm]
  refine Loads.ite (fun hne => Loads.pure (if_pos (Or.inr hne)).symm) fun heq => ?_
  rw [if_neg (not_or.mpr ⟨hroom, heq⟩)]
  refine (b16At_loads (by omega)).bind ?_
  rintro nseg rfl
  refine (b16At_loads (by omega)).bind ?_
  rintro clen rfl
  refine (b32At_loads (by omega)).bind ?_
  rintro dsize rfl
  refine (b32At_loads (by omega)).bind ?_
  rintro hcrc rfl
  rw [b16_drop, b16_drop, b32_drop, b32_drop]
  refine Loads.ite (fun h => Loads.pure (if_pos h).symm) fun hnseg => ?_
  rw [if_neg hnseg]
  refine Loads.ite (fun h => Loads.pure (if_pos h).symm) fun hsize => ?_
  rw [if_neg hsize]
  -- the tables end inside the room
  have hsub : (32#32 + 12#32 * b16 (buf.drop d) 6 + b16 (buf.drop d) 16 - 32#32).toNat ≤
      room.toNat - 32 := by
    have hle := BitVec.le_def.mp (BitVec.not_lt.mp hsize)
    rw [b16_eq, b16_eq] at hle ⊢
    rw [b16_eq] at hnseg
    have hmeta := metaBytes_word (nseg_le_of_word (BitVec.not_lt.mp (not_or.mp hnseg).2))
    have hhdr : (32#32).toNat ≤ metaBytes (buf.drop d) := Nat.le_add_right _ _
    rw [BitVec.toNat_sub_of_le (BitVec.le_def.mpr (hmeta.symm ▸ hhdr)), hmeta]
    rw [hmeta] at hle
    exact Nat.sub_le_sub_right hle _
  refine (crc32UpdateAt_loads (by omega)).bind ?_
  rintro c₁ rfl
  refine (crc32UpdateAt_loads (by omega)).bind ?_
  rintro c₂ rfl
  rw [← List.drop_drop]
  exact Loads.ite (fun h => Loads.pure (if_pos h).symm) fun h => Loads.pure (if_neg h).symm

/-- The words of a partition header add up to the complement of its last one. -/
def ChecksumOk (buf : List (BitVec 8)) (h : ℕ) : Prop :=
  ~~~((List.range 15).map fun k => b32 buf (h + 4 * k)).sum = b32 buf (h + 60)

structure Found (buf : List (BitVec 8)) (out : Bootbin) : Prop where
  bit : ∀ d, out.bit = some d → d.toNat + 4 * out.bitWords.toNat ≤ buf.length
  img : ∀ d, out.img = some d →
    d.toNat + out.imgBytes.toNat ≤ buf.length ∧ HdrCrcOk (buf.drop d.toNat)

theorem sumAt_loads {h : ℕ} (hn : h + 4 * n ≤ buf.length) :
    Loads (sumAt buf h n) fun s => s = ((List.range n).map fun k => b32 buf (h + 4 * k)).sum := by
  induction n with
  | zero => exact ⟨0#32, rfl, rfl⟩
  | succ n ih =>
    refine (ih (by omega)).bind ?_
    rintro s rfl
    refine (b32At_loads (by omega)).bind ?_
    rintro w rfl
    refine Loads.pure ?_
    rw [List.range_succ, List.map_append, List.sum_append, List.map_singleton, List.sum_singleton]

theorem partition_inside {words off : BitVec 32} (hoff : off ≤ size / 4#32)
    (hwords : words ≤ size / 4#32 - off) :
    (4#32 * off).toNat = 4 * off.toNat ∧ (4#32 * words).toNat = 4 * words.toNat ∧
      4 * off.toNat + 4 * words.toNat ≤ size.toNat := by
  have hdiv : (size / 4#32).toNat = size.toNat / 4 := BitVec.toNat_udiv
  rw [BitVec.le_def] at hoff
  rw [BitVec.le_def, BitVec.toNat_sub_of_le (BitVec.le_def.mpr hoff), hdiv] at hwords
  rw [hdiv] at hoff
  have := size.isLt
  rw [BitVec.toNat_mul, BitVec.toNat_mul, BitVec.toNat_ofNat]
  omega

theorem partition_loads (hsize : size.toNat = buf.length) {h : ℕ}
    (hh : h + 64 ≤ buf.length) {out : Bootbin} (hout : Found buf out) :
    Loads (partition buf size h out) fun r => ∀ o, r = .ok o → Found buf o ∧ ChecksumOk buf h := by
  unfold partition
  refine (sumAt_loads (by omega)).bind ?_
  rintro sum rfl
  refine (b32At_loads (by omega)).bind ?_
  rintro check rfl
  refine Loads.ite (fun _ => Loads.pure nofun) fun hsum => ?_
  have hsum : ChecksumOk buf h := not_not.mp hsum
  refine (b32At_loads (by omega)).bind ?_
  rintro words rfl
  refine (b32At_loads (by omega)).bind ?_
  rintro off rfl
  refine (b32At_loads (by omega)).bind ?_
  rintro attr rfl
  refine Loads.ite (fun _ => Loads.pure nofun) fun hin => ?_
  simp only [not_or, gt_iff_lt, BitVec.not_lt] at hin
  obtain ⟨hd, hw, hfits⟩ := partition_inside hin.1 hin.2
  have hsame : Loads (Pure.pure (Except.ok out) : Checked (Except Refusal Bootbin))
      fun r => ∀ o, r = .ok o → Found buf o ∧ ChecksumOk buf h :=
    Loads.pure fun o ho => Except.ok.inj ho ▸ ⟨hout, hsum⟩
  refine Loads.ite (fun _ => Loads.ite (fun _ => ?_) fun _ => hsame) fun _ =>
    Loads.ite (fun _ => ?_) fun _ => hsame
  · refine Loads.pure fun o ho => ?_
    obtain rfl := Except.ok.inj ho
    refine ⟨⟨fun d hd' => ?_, hout.img⟩, hsum⟩
    obtain rfl := Option.some.inj hd'
    dsimp only
    omega
  · refine (rvbiOkAt_loads (by omega)).bind ?_
    rintro r rfl
    cases hr : rvbiOk (buf.drop (4#32 * b32 buf (h + 20)).toNat) (4#32 * b32 buf (h + 4)) with
    | none => exact hsame
    | some bytes =>
      refine Loads.pure fun o ho => ?_
      obtain rfl := Except.ok.inj ho
      have hacc := rvbiOk_accepted hr
      refine ⟨⟨hout.bit, fun d hd' => ?_⟩, hsum⟩
      obtain rfl := Option.some.inj hd'
      have hbytes := hacc.bytes_eq
      have hroom := hacc.fits
      refine ⟨?_, hacc.crc⟩
      dsimp only
      omega

theorem partitions_loads {pt : BitVec 32} (hsize : size.toNat = buf.length) :
    ∀ {i : ℕ} {out : Bootbin}, pt.toNat + 64 * (i + k) ≤ buf.length → Found buf out →
      Loads (partitions buf size pt k i out) fun r => ∀ o, r = .ok o →
        Found buf o ∧ ∀ j, i ≤ j → j < i + k → ChecksumOk buf (pt.toNat + 64 * j) := by
  induction k with
  | zero =>
    intro i out _ hout
    refine Loads.pure fun o ho => ?_
    obtain rfl := Except.ok.inj ho
    exact ⟨hout, fun j hij hj => absurd hj (by omega)⟩
  | succ k ih =>
    intro i out hk hout
    refine (partition_loads hsize (by omega) hout).bind ?_
    intro r hr
    cases r with
    | error e => exact Loads.pure nofun
    | ok o =>
      obtain ⟨hfound, hsum⟩ := hr o rfl
      obtain ⟨r', hrun, hr'⟩ := ih (i := i + 1) (by omega) hfound
      refine ⟨r', hrun, fun o' ho' => ?_⟩
      obtain ⟨hfound', hrest⟩ := hr' o' ho'
      refine ⟨hfound', fun j hij hj => ?_⟩
      rcases Nat.eq_or_lt_of_le hij with rfl | hlt
      · exact hsum
      · exact hrest j hlt (by omega)

end Parse

/-- `bootbin_parse` loads inside the buffer only, and what it returns lies inside it, behind headers
with good checksums. -/
theorem bootbin_parse_inside (buf : List (BitVec 8)) (hlen : buf.length < 2 ^ 32) :
    ∃ r, bootbinParse buf = .ok r ∧ ∀ b, r = .ok b →
      (∃ d, b.bit = some d ∧ d.toNat + 4 * b.bitWords.toNat ≤ buf.length) ∧
      (∃ d, b.img = some d ∧ d.toNat + b.imgBytes.toNat ≤ buf.length ∧
        HdrCrcOk (buf.drop d.toNat)) ∧
      ∀ i < b.nparts.toNat, ChecksumOk buf ((b32 buf 0x9c).toNat + 64 * i) := by
  have hsize : (BitVec.ofNat 32 buf.length).toNat = buf.length := by
    rw [BitVec.toNat_ofNat, Nat.mod_eq_of_lt hlen]
  unfold bootbinParse
  refine Loads.ite (fun _ => Loads.pure nofun) fun hshort => ?_
  have hmin : 0xa0 ≤ buf.length := hsize ▸ BitVec.not_lt.mp hshort
  refine (b32At_loads (by omega)).bind ?_
  rintro width rfl
  refine Loads.ite (fun _ => Loads.pure nofun) fun _ => ?_
  refine (b32At_loads (by omega)).bind ?_
  rintro ident rfl
  refine Loads.ite (fun _ => Loads.pure nofun) fun _ => ?_
  refine (b32At_loads (by omega)).bind ?_
  rintro it rfl
  refine (b32At_loads (by omega)).bind ?_
  rintro pt rfl
  refine Loads.ite (fun _ => Loads.pure nofun) fun htab => ?_
  simp only [not_or, gt_iff_lt, BitVec.not_lt] at htab
  obtain ⟨-, -, hit, hpt⟩ := htab
  have hsub : ∀ n : BitVec 32, n.toNat ≤ 0xa0 →
      (BitVec.ofNat 32 buf.length - n).toNat = buf.length - n.toNat := by
    intro n hn
    rw [BitVec.toNat_sub_of_le (BitVec.le_def.mpr (by omega)), hsize]
  rw [BitVec.le_def, hsub _ (by decide)] at hit hpt
  have h8 : (8#32).toNat = 8 := rfl
  have h64 : (64#32).toNat = 64 := rfl
  refine (b32At_loads (by omega)).bind ?_
  rintro n rfl
  refine Loads.ite (fun _ => Loads.pure nofun) fun hcount => ?_
  simp only [not_or, gt_iff_lt, BitVec.not_lt] at hcount
  obtain ⟨-, -, hn⟩ := hcount
  rw [BitVec.le_def, BitVec.toNat_udiv, BitVec.toNat_sub_of_le (BitVec.le_def.mpr (by omega)),
    hsize, h64] at hn
  have hnone : Found buf ⟨none, 0#32, none, 0#32, 0#32⟩ := ⟨nofun, nofun⟩
  refine (partitions_loads hsize (by omega) hnone).bind ?_
  intro r hr
  cases r with
  | error e => exact Loads.pure nofun
  | ok out =>
    obtain ⟨hfound, hsums⟩ := hr out rfl
    refine Loads.ite (fun _ => Loads.pure nofun) fun hbit => ?_
    refine Loads.ite (fun _ => Loads.pure nofun) fun himg => ?_
    obtain ⟨bit, hbit⟩ := Option.ne_none_iff_exists'.mp hbit
    obtain ⟨img, himg⟩ := Option.ne_none_iff_exists'.mp himg
    refine Loads.pure fun b hb => ?_
    obtain rfl := Except.ok.inj hb
    exact ⟨⟨bit, hbit, hfound.bit bit hbit⟩, ⟨img, himg, hfound.img img himg⟩,
      fun i hi => hsums i (Nat.zero_le i) ((Nat.zero_add _).symm ▸ hi)⟩

def partitionHeader (words off attr check : BitVec 32) : List (BitVec 8) :=
  le32 0#32 ++ le32 words ++ List.replicate 12 0#8 ++ le32 off ++ le32 attr ++
    List.replicate 32 0#8 ++ le32 check

def sampleBootbin : List (BitVec 8) :=
  List.replicate 0x20 0#8 ++ le32 0xaa995566#32 ++ le32 0x584c4e58#32 ++ List.replicate 0x70 0#8 ++
    le32 0xa0#32 ++ le32 0xa8#32 ++ le32 0#32 ++ le32 2#32 ++
    partitionHeader 1#32 74#32 0x20#32 (~~~(1#32 + 74#32 + 0x20#32)) ++
    partitionHeader 12#32 75#32 0#32 (~~~(12#32 + 75#32)) ++ le32 0#32 ++ smallImage

theorem sampleBootbin_parsed : ∃ r, bootbinParse sampleBootbin = .ok r ∧ ∀ b, r = .ok b →
      (∃ d, b.bit = some d ∧ d.toNat + 4 * b.bitWords.toNat ≤ sampleBootbin.length) ∧
      (∃ d, b.img = some d ∧ d.toNat + b.imgBytes.toNat ≤ sampleBootbin.length ∧
        HdrCrcOk (sampleBootbin.drop d.toNat)) ∧
      ∀ i < b.nparts.toNat, ChecksumOk sampleBootbin ((b32 sampleBootbin 0x9c).toNat + 64 * i) :=
  bootbin_parse_inside sampleBootbin (by decide +kernel)

example : (bootbinParse sampleBootbin).toOption.bind Except.toOption =
    some ⟨some 0x128#32, 1#32, some 0x12c#32, 48#32, 2#32⟩ := by decide +kernel

end RiscvScratch.Rvbi
