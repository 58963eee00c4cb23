import RiscvScratch.Image.Outcome

/-!
The fields, the table and the data of an image that `make_image` makes, as the loader reads them.
-/
namespace RiscvScratch.Rvbi

open ByteMem

variable (nseg : BitVec 16) (entry flags : BitVec 32) (clen : BitVec 16) (dsize dcrc : BitVec 32)

def imageHead : List (BitVec 8) :=
  le32 rvbiMagic ++ le16 rvbiVersion ++ le16 nseg ++ le32 entry ++ le32 flags ++ le16 clen ++
    le16 0#16 ++ le32 dsize ++ le32 dcrc

def tableRow (g : Segment) : List (BitVec 8) :=
  le32 g.addr ++ le32 (BitVec.ofNat 32 g.data.length) ++ le32 g.memsz

def dataOf (segs : List Segment) : List (BitVec 8) := (segs.map Segment.data).flatten

variable {segs : List Segment} {i : ℕ}

theorem packTable_eq (h : ∀ g ∈ segs, g.data.length < 2 ^ 32) :
    packTable segs = some (segs.map tableRow).flatten := by
  induction segs with
  | nil => rfl
  | cons g gs ih =>
    have hg : g.data.length < 2 ^ 32 := h g List.mem_cons_self
    have hrest := ih fun g' hg' => h g' (List.mem_cons_of_mem g hg')
    simp only [packTable, packSeg, pack32, if_pos hg, hrest, Option.bind_eq_bind,
      Option.bind_some, Option.pure_def, tableRow, List.map_cons, List.flatten_cons]

theorem imageHead_length : (imageHead nseg entry flags clen dsize dcrc).length = 28 := rfl

theorem makeImage_eq (entry flags : BitVec 32) {args : List (BitVec 8)}
    (hseg : segs.length < 2 ^ 16) (hargs : args.length ≤ rvbiMaxCmd)
    (hfile : ∀ g ∈ segs, g.data.length < 2 ^ 32) (hdata : (dataOf segs).length < 2 ^ 32) :
    ∃ crc, makeImage entry segs args flags =
        some (imageHead (BitVec.ofNat 16 segs.length) entry flags (BitVec.ofNat 16 args.length)
          (BitVec.ofNat 32 (dataOf segs).length) (crc32 0#32 (dataOf segs)) ++
          (le32 crc ++ ((segs.map tableRow).flatten ++ (args ++ dataOf segs)))) ∧
      crc = crc32 0#32 (imageHead (BitVec.ofNat 16 segs.length) entry flags
          (BitVec.ofNat 16 args.length) (BitVec.ofNat 32 (dataOf segs).length)
          (crc32 0#32 (dataOf segs)) ++ List.replicate 4 0#8 ++
          ((segs.map tableRow).flatten ++ args)) := by
  refine ⟨_, ?_, rfl⟩
  have hshort : ¬255 < args.length := Nat.not_lt.mpr hargs
  have hargs16 : args.length < 2 ^ 16 := lt_of_le_of_lt hargs (by decide)
  have hzero : le32 0#32 = List.replicate 4 0#8 := by decide
  unfold makeImage packHdr
  rw [packTable_eq hfile]
  simp only [pack16, pack32, if_pos hseg, if_pos hargs16, Option.bind_eq_bind, Option.bind_some,
    Option.pure_def, if_neg hshort, hzero]
  rw [show (List.map Segment.data segs).flatten = dataOf segs from rfl, if_pos hdata]
  simp only [Option.bind_some, Option.some.injEq]
  rw [← imageHead, List.length_append, List.length_replicate, Nat.add_sub_cancel,
    List.take_left]
  simp only [List.append_assoc]

theorem halves_append (v : BitVec 16) : v.extractLsb' 8 8 ++ v.extractLsb' 0 8 = v := by
  apply BitVec.eq_of_getLsbD_eq
  intro i hi
  rw [BitVec.getLsbD_append]
  split
  · next h => simp [h]
  · next h => simp [show i - 8 < 8 by omega, show 8 + (i - 8) = i by omega]

structure ImageIs (entry : BitVec 32) (segs : List Segment) (args : List (BitVec 8))
    (flags : BitVec 32) (l : List (BitVec 8)) : Prop where
  magic : l.take 4 = le32 rvbiMagic
  magicWord : u32 l 0 = rvbiMagic
  version : u16 l 4 = rvbiVersion
  nseg : (u16 l 6).toNat = segs.length
  entry : u32 l 8 = entry
  flags : u32 l 12 = flags
  cmdlineLen : (u16 l 16).toNat = args.length
  dataSize : (u32 l 20).toNat = (dataOf segs).length
  dataCrc : u32 l 24 = crc32 0#32 (dataOf segs)
  table : tableOf l = (segs.map tableRow).flatten
  cmdline : cmdlineOf l = args
  data : l.drop (metaBytes l) = dataOf segs
  length : metaBytes l ≤ l.length
  hdrCrc : HdrCrcOk l

theorem table_length (segs : List Segment) :
    ((segs.map tableRow).flatten).length = segs.length * segBytes := by
  induction segs with
  | nil => rfl
  | cons g gs ih =>
    rw [List.map_cons, List.flatten_cons, List.length_append, ih, List.length_cons, Nat.succ_mul,
      Nat.add_comm]
    rfl

theorem imageIs_parts {nseg clen : BitVec 16} {entry flags dsize crc : BitVec 32}
    {args : List (BitVec 8)} (hnseg : nseg.toNat = segs.length)
    (hclen : clen.toNat = args.length) (hdsize : dsize.toNat = (dataOf segs).length)
    (hcrc : crc = crc32 0#32 (imageHead nseg entry flags clen dsize (crc32 0#32 (dataOf segs)) ++
      List.replicate 4 0#8 ++ ((segs.map tableRow).flatten ++ args))) :
    ImageIs entry segs args flags
      (imageHead nseg entry flags clen dsize (crc32 0#32 (dataOf segs)) ++
        (le32 crc ++ ((segs.map tableRow).flatten ++ (args ++ dataOf segs)))) := by
  obtain ⟨l, hl⟩ : ∃ l, l = imageHead nseg entry flags clen dsize (crc32 0#32 (dataOf segs)) ++
    (le32 crc ++ ((segs.map tableRow).flatten ++ (args ++ dataOf segs))) := ⟨_, rfl⟩
  have hn : u16 l 6 = nseg := hl ▸ halves_append nseg
  have hc : u16 l 16 = clen := hl ▸ halves_append clen
  have htbl : (u16 l 6).toNat * segBytes = ((segs.map tableRow).flatten).length := by
    rw [hn, hnseg, table_length]
  have hcmd : (u16 l 16).toNat = args.length := by rw [hc, hclen]
  have hbody : l.drop hdrBytes = (segs.map tableRow).flatten ++ (args ++ dataOf segs) := by
    rw [hl]
    rfl
  have htable : tableOf l = (segs.map tableRow).flatten := by
    rw [tableOf, hbody, htbl, List.take_left]
  have hafter : l.drop (hdrBytes + (u16 l 6).toNat * segBytes) = args ++ dataOf segs := by
    rw [← List.drop_drop, hbody, htbl, List.drop_left]
  have hline : cmdlineOf l = args := by
    rw [cmdlineOf, hafter, hcmd, List.take_left]
  have hmeta : l.drop (metaBytes l) = dataOf segs := by
    rw [metaBytes, ← Nat.add_assoc, ← List.drop_drop, hafter, hcmd, List.drop_left]
  rw [← hl]
  refine ⟨?_, ?_, ?_, hn ▸ hnseg, ?_, ?_, hcmd, ?_, ?_, htable, hline, hmeta, ?_, ?_⟩
  · rw [hl]; rfl
  · exact hl ▸ bytes_append rvbiMagic
  · exact hl ▸ halves_append rvbiVersion
  · exact hl ▸ bytes_append entry
  · exact hl ▸ bytes_append flags
  · rw [show u32 l 20 = dsize from hl ▸ bytes_append dsize, hdsize]
  · exact hl ▸ bytes_append (crc32 0#32 (dataOf segs))
  · have hlen : l.length = 28 + (4 + (((segs.map tableRow).flatten).length +
        (args.length + (dataOf segs).length))) := by
      rw [hl]
      simp only [List.length_append, imageHead_length]
      rfl
    rw [metaBytes, hlen, htbl, hcmd]
    unfold hdrBytes
    omega
  · rw [HdrCrcOk, htable, hline, show u32 l 28 = crc from hl ▸ bytes_append crc, hcrc, hl]
    rfl

theorem getD_append_right (r t : List (BitVec 8)) (j : ℕ) :
    (r ++ t).getD (r.length + j) 0#8 = t.getD j 0#8 := by
  rw [List.getD_eq_getElem?_getD, List.getElem?_append_right (Nat.le_add_right _ _),
    Nat.add_sub_cancel_left, ← List.getD_eq_getElem?_getD]

theorem u32_append_right (r t : List (BitVec 8)) (k : ℕ) :
    u32 (r ++ t) (r.length + k) = u32 t k := by
  simp only [u32, Nat.add_assoc, getD_append_right]

theorem u32_row (hi : i < segs.length) :
    u32 (segs.map tableRow).flatten (segBytes * i) = segs[i].addr ∧
      u32 (segs.map tableRow).flatten (segBytes * i + 4) =
        BitVec.ofNat 32 segs[i].data.length ∧
      u32 (segs.map tableRow).flatten (segBytes * i + 8) = segs[i].memsz := by
  induction segs generalizing i with
  | nil => cases hi
  | cons g gs ih =>
    cases i with
    | zero => exact ⟨bytes_append _, bytes_append _, bytes_append _⟩
    | succ i =>
      have hnext : segBytes * (i + 1) = (tableRow g).length + segBytes * i := by
        rw [Nat.mul_succ, Nat.add_comm]
        rfl
      rw [List.map_cons, List.flatten_cons, hnext, Nat.add_assoc, Nat.add_assoc, u32_append_right,
        u32_append_right, u32_append_right]
      exact ih (Nat.lt_of_succ_lt_succ hi)

theorem dataOf_share (hi : i < segs.length) :
    ((dataOf segs).drop (dataOf (segs.take i)).length).take segs[i].data.length =
      segs[i].data := by
  have hsplit : dataOf segs =
      dataOf (segs.take i) ++ (segs[i].data ++ dataOf (segs.drop (i + 1))) := by
    rw [dataOf, dataOf, dataOf, ← List.flatten_cons, ← List.map_cons, ← List.flatten_append,
      ← List.map_append, List.getElem_cons_drop, List.take_append_drop]
  rw [hsplit, List.drop_left, List.take_left]

theorem dataOf_take_succ (hi : i < segs.length) :
    (dataOf (segs.take (i + 1))).length =
      (dataOf (segs.take i)).length + segs[i].data.length := by
  rw [List.take_succ_eq_append_getElem hi, dataOf, List.map_append, List.flatten_append,
    List.length_append, ← dataOf]
  simp

end RiscvScratch.Rvbi
