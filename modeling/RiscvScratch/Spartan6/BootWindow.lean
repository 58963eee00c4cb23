import Mathlib.Data.BitVec
import RiscvScratch.Spartan6.Boot

/-! Where the bootloader stores and when it jumps: what it does on any line is a sequence of
sessions, the last of them perhaps cut short. -/
namespace RiscvScratch.S6Boot

open ByteMem Program

def magic : List (BitVec 8) := [ch 'S', ch '6', ch 'L', ch 'D']

def heard (bs : List (BitVec 8)) : List Event := bs.map .got

def said : List Char → List Event
  | [] => []
  | c :: cs => (if c = '\n' then [.put (ch '\r')] else []) ++ .put (ch c) :: said cs

/-- Bytes taken from the line and stored from `a` on. -/
def transfers (a : BitVec 32) : List (BitVec 8) → List Event
  | [] => []
  | b :: bs => .got b :: .store a b :: transfers (a + 1#32) bs

def checksum (bs : List (BitVec 8)) : BitVec 32 := (bs.map (·.setWidth 32)).sum

def opening (entry len : BitVec 32) : List Event :=
  heard magic ++ .put (ch 'R') :: (heard (le32 len) ++ (heard (le32 entry) ++ [.header entry len]))

/-- What follows a header, for a loader that takes the headers in `P`. -/
inductive Answer (P : BitVec 32 → BitVec 32 → Prop) (entry len : BitVec 32) : List Event → Prop
  | refused (h : ¬P entry len) : Answer P entry len [.put (ch 'B')]
  | corrupt {want : BitVec 32} {bs : List (BitVec 8)} (h : P entry len)
      (hlen : bs.length = len.toNat) (hsum : checksum bs ≠ want) :
      Answer P entry len (transfers entry bs ++ (heard (le32 want) ++ [.put (ch 'E')]))
  | ran {want : BitVec 32} {bs : List (BitVec 8)} (h : P entry len)
      (hlen : bs.length = len.toNat) (hsum : checksum bs = want) :
      Answer P entry len (transfers entry bs ++ (heard (le32 want) ++
        .put (ch 'K') :: .jump entry :: said returned))

inductive Session (P : BitVec 32 → BitVec 32 → Prop) : List Event → Prop
  | noMagic {bs : List (BitVec 8)} {x b : BitVec 8} (hx : bs ++ [x] <+: magic) (hb : b ≠ x) :
      Session P (heard (bs ++ [b]))
  | header {entry len : BitVec 32} {t : List Event} (h : Answer P entry len t) :
      Session P (opening entry len ++ t)

abbrev Records {α : Type} (c : Boot α) (R : α → List Event → Prop) : Prop :=
  Traces Machine.trace c R

theorem record_records (e : Event) : Records (record e) (fun _ t => t = [e]) :=
  ⟨fun _ => ⟨[e], rfl, rfl⟩⟩

theorem uartGetc_records : Records uartGetc (fun b t => t = [.got b]) := by
  constructor
  intro s
  obtain ⟨line, mem, trace⟩ := s
  cases line with
  | nil => exact ⟨[], (List.append_nil _).symm, 0#8, [.got 0#8], rfl, List.nil_prefix⟩
  | cons b rest => exact ⟨[.got b], rfl, rfl⟩

theorem uartPutc_records (c : BitVec 8) : Records (uartPutc c) (fun _ t => t = [.put c]) :=
  record_records _

theorem store_records (u : Setup) (a : BitVec 32) (b : BitVec 8) :
    Records (store u a b) (fun _ t => t = [.store a b]) := by
  constructor
  intro s
  unfold Wp
  rw [store_eq]
  refine Wp.ite (fun _ => wp_throw.mpr ⟨[.store a b], rfl, ⟨⟩, _, rfl, List.prefix_refl _⟩) ?_
  exact fun _ => wp_pure.mpr ⟨[.store a b], rfl, rfl⟩

theorem uartPuts_records (cs : List Char) : Records (uartPuts cs) (fun _ t => t = said cs) := by
  induction cs with
  | nil => exact (traces_pure ()).mono fun _ _ h => h.2
  | cons c cs ih =>
    have hrest := (uartPutc_records (ch c)).bind fun _ => ih
    by_cases hc : c = '\n'
    · have h := (uartPutc_records (ch '\r')).bind fun _ => hrest
      have heq : uartPuts (c :: cs) = (do uartPutc (ch '\r'); uartPutc (ch c); uartPuts cs) := by
        rw [uartPuts, if_pos hc]
      rw [heq]
      refine h.mono ?_
      rintro _ t ⟨_, _, _, rfl, ⟨_, _, _, rfl, rfl, rfl⟩, rfl⟩
      rw [said, if_pos hc]
      rfl
    · have heq : uartPuts (c :: cs) = (do uartPutc (ch c); uartPuts cs) := by
        rw [uartPuts, if_neg hc]
      rw [heq]
      refine hrest.mono ?_
      rintro _ t ⟨_, _, _, rfl, rfl, rfl⟩
      rw [said, if_neg hc]
      rfl

theorem getU32_records : Records getU32 (fun v t => t = heard (le32 v)) := by
  refine (uartGetc_records.bind fun b₀ => uartGetc_records.bind fun b₁ =>
    uartGetc_records.bind fun b₂ => uartGetc_records.bind fun b₃ => traces_pure _).mono ?_
  rintro v t ⟨b₀, _, _, rfl, ⟨b₁, _, _, rfl, ⟨b₂, _, _, rfl, ⟨b₃, _, _, rfl, ⟨rfl, rfl⟩, rfl⟩, rfl⟩,
    rfl⟩, rfl⟩
  rw [le32_or]
  rfl

theorem download_records (u : Setup) (dst : BitVec 32) (n : ℕ) (i got : BitVec 32) :
    Records (download u dst n i got) (fun v t => ∃ bs : List (BitVec 8), bs.length = n ∧
      t = transfers (dst + i) bs ∧ v = got + checksum bs) := by
  induction n generalizing i got with
  | zero =>
    refine (traces_pure got).mono ?_
    rintro v t ⟨rfl, rfl⟩
    exact ⟨[], rfl, rfl, (BitVec.add_zero v).symm⟩
  | succ n ih =>
    refine (uartGetc_records.bind fun b => (store_records u (dst + i) b).bind fun _ =>
      ih (i + 1#32) (got + b.setWidth 32)).mono ?_
    rintro v t ⟨b, _, _, rfl, ⟨_, _, _, rfl, ⟨bs, hlen, rfl, rfl⟩, rfl⟩, rfl⟩
    refine ⟨b :: bs, by rw [List.length_cons, hlen], ?_, ?_⟩
    · rw [← BitVec.add_assoc]
      rfl
    · rw [BitVec.add_assoc]
      rfl

theorem callApp_records (u : Setup) (entry : BitVec 32) :
    Records (callApp u entry) (fun _ t => t = [.jump entry]) := by
  constructor
  intro s
  unfold Wp
  rcases callApp_cases u entry s with h | ⟨m, n, -, h⟩
  · rw [h]
    exact ⟨[.jump entry], rfl, ⟨⟩, _, rfl, List.prefix_refl _⟩
  · rw [h]
    refine Wp.ite (fun _ => wp_throw.mpr ⟨[.jump entry], rfl, ⟨⟩, _, rfl, List.prefix_refl _⟩) ?_
    exact fun _ => wp_pure.mpr ⟨[.jump entry], rfl, rfl⟩

section Passes

variable (u : Setup)

theorem handOver_records (entry : BitVec 32) (cs : List Char) :
    Records (do uartPutc (ch 'K'); callApp u entry; uartPuts cs)
      (fun _ t => t = .put (ch 'K') :: .jump entry :: said cs) := by
  refine ((uartPutc_records _).bind fun _ => (callApp_records u entry).bind fun _ =>
    uartPuts_records cs).mono ?_
  rintro _ t ⟨_, _, _, rfl, ⟨_, _, _, rfl, rfl, rfl⟩, rfl⟩
  rfl

theorem receive_records (entry len : BitVec 32) :
    Records (receive u entry len)
      (fun _ t => Answer (fun e l => accepts u.ramBytes e l) entry len t) := by
  unfold receive
  apply Traces.ite
  · intro h
    refine (uartPutc_records _).mono ?_
    rintro _ t rfl
    exact .refused (by simpa using h)
  · intro h
    have hacc : accepts u.ramBytes entry len = true := by simpa using h
    refine ((download_records u entry len.toNat 0#32 0#32).bind fun got =>
      getU32_records.bind fun want => Traces.ite
        (R := fun _ t => got ≠ want ∧ t = [.put (ch 'E')] ∨
          got = want ∧ t = .put (ch 'K') :: .jump entry :: said returned) ?_ ?_).mono ?_
    · intro hne
      exact (uartPutc_records _).mono fun _ t ht => .inl ⟨hne, ht⟩
    · intro heq
      exact (handOver_records u entry returned).mono fun _ t ht => .inr ⟨not_not.mp heq, ht⟩
    · rintro _ t ⟨got, _, _, ⟨bs, hlen, rfl, rfl⟩, ⟨want, _, _, rfl, hend, rfl⟩, rfl⟩
      rw [BitVec.add_zero, BitVec.zero_add] at *
      rcases hend with ⟨hne, rfl⟩ | ⟨heq, rfl⟩
      · exact .corrupt hacc hlen hne
      · exact .ran hacc hlen heq

theorem expect_records (seen : List (BitVec 8)) {c : BitVec 8} (hc : seen ++ [c] <+: magic)
    {d : Boot PUnit} {P : BitVec 32 → BitVec 32 → Prop}
    (hd : Records d (fun _ t => Session P (heard (seen ++ [c]) ++ t))) :
    Records (uartGetc >>= fun b => if b ≠ c then pure ⟨⟩ else d)
      (fun _ t => Session P (heard seen ++ t)) := by
  refine (uartGetc_records.bind fun b => Traces.ite
    (R := fun _ t => b ≠ c ∧ t = [] ∨ b = c ∧ Session P (heard (seen ++ [c]) ++ t)) ?_ ?_).mono ?_
  · intro hb
    exact (traces_pure _).mono fun _ t ht => .inl ⟨hb, ht.2⟩
  · intro hb
    exact hd.mono fun _ t ht => .inr ⟨not_not.mp hb, ht⟩
  · rintro _ t ⟨b, _, t', rfl, ⟨hb, rfl⟩ | ⟨rfl, ht⟩, rfl⟩
    · have h := Session.noMagic (P := P) hc hb
      rwa [heard, List.map_append] at h
    · rwa [heard, List.map_append, List.append_assoc] at ht

theorem pass_records : Records (pass u)
      (fun _ t => Session (fun e l => accepts u.ramBytes e l) t) := by
  refine expect_records [] (by decide) (expect_records [ch 'S'] (by decide)
    (expect_records [ch 'S', ch '6'] (by decide)
      (expect_records [ch 'S', ch '6', ch 'L'] (by decide) ?_)))
  refine ((uartPutc_records _).bind fun _ => getU32_records.bind fun len =>
    getU32_records.bind fun entry => (record_records _).bind fun _ =>
      receive_records u entry len).mono ?_
  rintro _ t ⟨_, _, _, rfl, ⟨len, _, _, rfl, ⟨entry, _, _, rfl, ⟨_, _, t', rfl, ha, rfl⟩, rfl⟩,
    rfl⟩, rfl⟩
  have h := Session.header ha
  simpa [opening, magic, heard] using h

theorem passes_records (n : ℕ) :
    Records (passes u n) (fun _ t => ∃ ss : List (List Event),
      t = ss.flatten ∧ ∀ x ∈ ss, Session (fun e l => accepts u.ramBytes e l) x) := by
  induction n with
  | zero =>
    refine (traces_pure _).mono ?_
    rintro _ t ⟨-, rfl⟩
    exact ⟨[], rfl, by simp⟩
  | succ n ih =>
    refine ((pass_records u).bind fun _ => ih).mono ?_
    rintro _ t ⟨_, x, _, hx, ⟨ss, rfl, hss⟩, rfl⟩
    exact ⟨x :: ss, rfl, by simpa using ⟨hx, hss⟩⟩

end Passes

section Transfer

variable {P Q : BitVec 32 → BitVec 32 → Prop}

variable {t : List Event}

theorem Answer.congr {entry len : BitVec 32} (h : Answer P entry len t)
    (hPQ : P entry len ↔ Q entry len) : Answer Q entry len t := by
  cases h with
  | refused h => exact .refused fun hq => h (hPQ.mpr hq)
  | corrupt h hlen hsum => exact .corrupt (hPQ.mp h) hlen hsum
  | ran h hlen hsum => exact .ran (hPQ.mp h) hlen hsum

end Transfer

variable {x : BitVec 32} {b : BitVec 8}

theorem final_of_records {α : Type} {c : Boot α} {R : α → List Event → Prop} (h : Records c R)
    (s : Machine) : ∃ t a u, (final c s).trace = s.trace ++ t ∧ R a u ∧ t <+: u := by
  have hs := h.wp s
  unfold Wp at hs
  unfold final
  cases hc : c s with
  | ok a s' =>
    rw [hc] at hs
    obtain ⟨t, ht, hr⟩ := hs
    exact ⟨t, a, t, ht, hr, List.prefix_refl t⟩
  | error e s' =>
    rw [hc] at hs
    obtain ⟨t, ht, a, u, hr, hp⟩ := hs
    exact ⟨t, a, u, ht, hr, hp⟩

def fresh (line : List (BitVec 8)) : Machine := ⟨line, fun _ => 0#8, []⟩

/-- 16 KiB of RAM with the loader as boot.hex has it, and an application that does not return. -/
def kit : Setup := ⟨fun _ _ _ => none, 4096#32, 0x2b0, 0x3c00⟩

end RiscvScratch.S6Boot
