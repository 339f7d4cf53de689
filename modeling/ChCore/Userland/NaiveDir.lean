import ChCore.Userland.NaiveFs
import Mathlib.Data.List.TakeWhile

/-!
# The directory of the naive file system

`HoldsDir buf es` says that a block holds the text of the entries `es` and zeros
behind it. For such a block the search loops are evaluated once: `findName` finds
exactly the names of the entries, `findInode` their numbers, and `lastPos` is the
length of the text. What `creat` does to the directory and to the map follows.
-/

namespace ChCore.Userland.NaiveFs

open Kernel Lib.Buffers Lib.ByteMem Function List

/-! ## Names and entries -/

/-- A name that an entry of the directory can hold: it is not empty, fits in
`name_buf` with its zero byte, and has no `'/'`. -/
structure ValidName (name : CString) : Prop where
  nonempty : name.chars ≠ []
  short : name.chars.length < nameBufSize
  noSlash : slash ∉ name.chars

instance (name : CString) : Decidable (ValidName name) :=
  decidable_of_iff (name.chars ≠ [] ∧ name.chars.length < nameBufSize ∧ slash ∉ name.chars)
    ⟨fun ⟨h1, h2, h3⟩ => ⟨h1, h2, h3⟩, fun h => ⟨h.1, h.2, h.3⟩⟩

/-- A file of the directory. -/
structure Dentry where
  name : CString
  inode : Nat

/-- `name/number/`. -/
def Dentry.text (e : Dentry) : List UInt8 :=
  e.name.chars ++ slash :: (inodeNumBuf e.inode ++ [slash])

/-- The text of the directory. -/
def dirText (es : List Dentry) : List UInt8 := es.flatMap Dentry.text

/-- An entry that the search loops read as it was written. -/
structure Dentry.Valid (e : Dentry) : Prop where
  name : ValidName e.name
  low : 2 ≤ e.inode
  high : e.inode < 64

/-- The block holds the entries `es`. -/
structure HoldsDir (buf : Block) (es : List Dentry) : Prop where
  text : ∃ n, buf.bytes = dirText es ++ List.replicate n 0
  valid : ∀ e ∈ es, e.Valid
  nodup : (es.map Dentry.name).Nodup

variable {n : Nat}

lemma slash_notMem_number (h : n < 64) : slash ∉ inodeNumBuf n := by
  revert n
  decide

/-- The digits of a number are read back as the number. -/
lemma decimal_number (h : n < 64) : decimal (inodeNumBuf n) = n := by
  revert n
  decide

lemma slash_notMem_zeros (n : Nat) : slash ∉ List.replicate n (0 : UInt8) := by
  intro h
  exact absurd (eq_of_mem_replicate h) (by decide)

lemma sameName_iff {name name' : CString} : sameName name name'.chars = true ↔ name = name' := by
  have htake : name'.chars.takeWhile (· != 0) = name'.chars := by
    rw [takeWhile_eq_self_iff]
    intro c hc
    rw [bne_iff_ne]
    rintro rfl
    exact name'.noNul hc
  rw [sameName, htake, beq_iff_eq]
  constructor
  · intro h
    cases name
    cases name'
    cases h
    rfl
  · rintro rfl
    rfl

lemma dirText_cons (e : Dentry) (es : List Dentry) (rest : List UInt8) :
    dirText (e :: es) ++ rest = e.name.chars ++ slash ::
    (inodeNumBuf e.inode ++ slash :: (dirText es ++ rest)) := by
  simp [dirText, Dentry.text]

lemma dirText_concat (es : List Dentry) (e : Dentry) :
    dirText (es ++ [e]) = dirText es ++ e.text := by
  simp [dirText]

lemma length_text (e : Dentry) :
    e.text.length = e.name.chars.length + (inodeNumBuf e.inode).length + 2 := by
  simp only [Dentry.text, length_append, length_cons, length_nil]
  omega

/-- An entry takes at least two bytes. -/
lemma two_mul_length_le (es : List Dentry) : 2 * es.length ≤ (dirText es).length := by
  induction es with
  | nil => exact le_refl 0
  | cons e es ih =>
    have htext : dirText (e :: es) = e.text ++ dirText es := by simp [dirText]
    rw [htext, length_append, length_text, length_cons]
    omega

lemma HoldsDir.length_le {buf : Block} {es : List Dentry}
    (h : HoldsDir buf es) : (dirText es).length ≤ blockSize := by
  obtain ⟨n, hn⟩ := h.text
  rw [← buf.size, hn, length_append]
  exact Nat.le_add_right _ _

/-! ## The search loops -/

section

variable {buf : Block} {name : CString} {rounds pos : Nat} {t rest : List UInt8}

lemma toSlash_piece (h : buf.bytes.drop pos = t ++ slash :: rest)
    (ht : slash ∉ t) : toSlash buf pos = pos + t.length := by
  rw [toSlash, h, seek_piece ht]

lemma piece_lt_blockSize (h : buf.bytes.drop pos = t ++ slash :: rest) :
    pos + t.length < blockSize := by
  rw [← buf.size]
  exact piece_lt_length h

lemma toSlash_end (h : slash ∉ buf.bytes.drop pos) : blockSize ≤ toSlash buf pos := by
  rw [toSlash, seek_absent h, length_drop, buf.size]
  omega

lemma toNextSlash_piece (h : buf.bytes.drop pos = t ++ slash :: rest)
    (ht : slash ∉ t) : toNextSlash buf pos = .ok (pos + t.length) := by
  rw [toNextSlash, toSlash_piece h ht, if_pos (piece_lt_blockSize h)]

lemma findName_end (h : slash ∉ buf.bytes.drop pos) :
    findName name buf (rounds + 1) pos = .ok none := by
  rw [findName, if_pos (toSlash_end h)]

variable {e : Dentry}

/-- One round of the search, in front of an entry. -/
lemma findName_entry (he : e.Valid)
    (h : buf.bytes.drop pos = e.name.chars ++ slash :: (inodeNumBuf e.inode ++ slash :: rest)) :
    findName name buf (rounds + 1) pos =
    if name = e.name then .ok (some (pos + e.name.chars.length + 1))
    else findName name buf rounds (pos + e.text.length) := by
  have hnext := drop_piece h
  have hslash := toSlash_piece h he.name.noSlash
  rw [findName, hslash, if_neg (Nat.not_le.2 (piece_lt_blockSize h)), copyName,
    slice_piece h, if_pos he.name.short, ok_bind]
  by_cases hname : name = e.name
  · rw [if_pos (sameName_iff.2 hname), if_pos hname]
  rw [if_neg (fun hsame => hname (sameName_iff.1 hsame)), if_neg hname,
    toNextSlash_piece hnext (slash_notMem_number he.high), ok_bind,
    length_text]
  congr 1
  omega

/-- What is behind an entry. -/
lemma drop_entry
    (h : buf.bytes.drop pos = e.name.chars ++ slash :: (inodeNumBuf e.inode ++ slash :: rest)) :
    buf.bytes.drop (pos + e.text.length) = rest := by
  rw [← drop_piece (drop_piece h), length_text]
  congr 1
  omega

variable {n : Nat} {es : List Dentry}

/-- A name that no entry has is not found. -/
lemma findName_absent : ∀ rounds pos, (∀ e ∈ es, e.Valid) → (∀ e ∈ es, e.name ≠ name) →
    buf.bytes.drop pos = dirText es ++ List.replicate n 0 →
    es.length < rounds → findName name buf rounds pos = .ok none := by
  induction es with
  | nil =>
    intro rounds pos _ _ hdrop hrounds
    obtain ⟨rounds, rfl⟩ : ∃ k, rounds = k + 1 := ⟨rounds - 1, by rw [length_nil] at hrounds; omega⟩
    apply findName_end
    rw [hdrop]
    exact slash_notMem_zeros n
  | cons e es ih =>
    intro rounds pos hvalid hne hdrop hrounds
    obtain ⟨rounds, rfl⟩ : ∃ k, rounds = k + 1 := ⟨rounds - 1, by omega⟩
    rw [dirText_cons] at hdrop
    rw [findName_entry (hvalid e mem_cons_self) hdrop, if_neg (hne e mem_cons_self).symm]
    refine ih _ _ (fun e' he' => hvalid e' (mem_cons_of_mem e he'))
      (fun e' he' => hne e' (mem_cons_of_mem e he')) (drop_entry hdrop) ?_
    rw [length_cons] at hrounds
    omega

/-- The name of an entry is found, and its number is behind it. -/
lemma findName_present : ∀ rounds pos, (∀ e' ∈ es, e'.Valid) → (es.map Dentry.name).Nodup →
    e ∈ es → buf.bytes.drop pos = dirText es ++ List.replicate n 0 → es.length < rounds →
    ∃ p rest, findName e.name buf rounds pos = .ok (some p) ∧
    buf.bytes.drop p = inodeNumBuf e.inode ++ slash :: rest := by
  induction es with
  | nil =>
    intro rounds pos _ _ he
    exact absurd he not_mem_nil
  | cons e' es ih =>
    intro rounds pos hvalid hnodup he hdrop hrounds
    obtain ⟨rounds, rfl⟩ : ∃ k, rounds = k + 1 := ⟨rounds - 1, by omega⟩
    rw [dirText_cons] at hdrop
    rw [findName_entry (hvalid e' mem_cons_self) hdrop]
    rw [map_cons, nodup_cons] at hnodup
    rcases mem_cons.1 he with rfl | he
    · rw [if_pos rfl]
      exact ⟨_, _, rfl, drop_piece hdrop⟩
    have hne : e.name ≠ e'.name := by
      intro hname
      exact hnodup.1 (hname ▸ mem_map_of_mem he)
    rw [if_neg hne]
    refine ih _ _ (fun e'' he'' => hvalid e'' (mem_cons_of_mem e' he''))
      hnodup.2 he (drop_entry hdrop) ?_
    rw [length_cons] at hrounds
    omega

/-- One round of the search for the end, in front of a `'/'`. -/
lemma lastPos_piece {prevPos : Nat} (h : buf.bytes.drop pos = t ++ slash :: rest) (ht : slash ∉ t) :
    lastPos buf (rounds + 1) prevPos pos =
    lastPos buf rounds (pos + t.length + 1) (pos + t.length + 1) := by
  have hlt := piece_lt_blockSize h
  rw [lastPos, if_pos (by omega), toSlash_piece h ht, if_neg (Nat.not_le.2 hlt)]

lemma lastPos_end {prevPos : Nat} (h : slash ∉ buf.bytes.drop pos) :
    lastPos buf rounds prevPos pos = prevPos := by
  cases rounds with
  | zero => rfl
  | succ rounds =>
    rw [lastPos, if_pos (toSlash_end h)]
    split
    · rfl
    · rfl

/-- The search for the end goes round twice for each entry. -/
lemma lastPos_text : ∀ rounds pos, (∀ e ∈ es, e.Valid) →
    buf.bytes.drop pos = dirText es ++ List.replicate n 0 → 2 * es.length ≤ rounds →
    lastPos buf rounds pos pos = pos + (dirText es).length := by
  induction es with
  | nil =>
    intro rounds pos _ hdrop _
    apply lastPos_end
    rw [hdrop]
    exact slash_notMem_zeros n
  | cons e es ih =>
    intro rounds pos hvalid hdrop hrounds
    rw [length_cons] at hrounds
    obtain ⟨rounds, rfl⟩ : ∃ k, rounds = k + 1 + 1 := ⟨rounds - 2, by omega⟩
    have he := hvalid e mem_cons_self
    have htext : dirText (e :: es) = e.text ++ dirText es := by simp [dirText]
    have hlen := length_text e
    rw [dirText_cons] at hdrop
    have hpos : pos + e.name.chars.length + 1 +
        (inodeNumBuf e.inode).length + 1 = pos + e.text.length := by
      omega
    rw [lastPos_piece hdrop he.name.noSlash,
      lastPos_piece (drop_piece hdrop) (slash_notMem_number he.high), hpos,
      ih _ _ (fun e' he' => hvalid e' (mem_cons_of_mem e he'))
        (drop_entry hdrop) (by omega), htext, length_append]
    omega

end

/-! ## What the functions find -/

section

variable {d : Disk} {es : List Dentry} {name : CString}

/-- The rounds that the loops are given are enough. -/
lemma HoldsDir.rounds {buf : Block} (h : HoldsDir buf es) : 2 * es.length < maxRounds :=
  Nat.lt_succ_of_le (le_trans (two_mul_length_le es) h.length_le)

/-- `naive_fs_access` finds exactly the names of the entries. -/
lemma access_eq (h : HoldsDir (d 1) es) :
    access d name = .ok (if name ∈ es.map Dentry.name then 0 else -1) := by
  obtain ⟨n, hn⟩ := h.text
  have hrounds := h.rounds
  by_cases hmem : name ∈ es.map Dentry.name
  · obtain ⟨e, he, rfl⟩ := mem_map.1 hmem
    obtain ⟨p, _, hfind, _⟩ := findName_present maxRounds 0 h.valid h.nodup he hn (by omega)
    rw [access, hfind, ok_bind, if_pos hmem]
  have hne : ∀ e ∈ es, e.name ≠ name := by
    rintro e he rfl
    exact hmem (mem_map_of_mem he)
  rw [access, findName_absent maxRounds 0 h.valid hne hn (by omega), ok_bind, if_neg hmem]

variable {e : Dentry}

lemma findInode_eq {buf : Block} (h : HoldsDir buf es) (he : e ∈ es) :
    findInode e.name buf = .ok (some (e.inode : Int)) := by
  obtain ⟨n, hn⟩ := h.text
  have hrounds := h.rounds
  have hhigh := (h.valid e he).high
  obtain ⟨p, rest, hfind, hnumber⟩ := findName_present maxRounds 0 h.valid h.nodup he hn (by omega)
  rw [findInode, hfind, ok_bind]
  change (toNextSlash buf p >>= fun endPos =>
    .ok (some (decimal (slice buf.bytes p endPos)))) = _
  rw [toNextSlash_piece hnumber (slash_notMem_number hhigh), ok_bind,
    slice_piece hnumber, decimal_number hhigh]

/-- Reading the file of an entry. -/
lemma pread_eq (h : HoldsDir (d 1) es) (he : e ∈ es) (offset size : Int) :
    pread d e.name offset size = (copyOut (d (d e.inode).int) offset size >>= fun bytes =>
    .ok (size, bytes)) := by
  rw [pread, access_eq h, ok_bind, if_pos (mem_map_of_mem he),
    if_neg (by decide), findInode_eq h he]
  rfl

lemma pread_absent (h : HoldsDir (d 1) es) (hname : name ∉ es.map Dentry.name) (offset size : Int) :
    pread d name offset size = .ok (-1, []) := by
  rw [pread, access_eq h, ok_bind, if_neg hname, if_pos (by decide)]

/-- Writing the file of an entry. -/
lemma pwrite_eq (h : HoldsDir (d 1) es) (he : e ∈ es) (offset size : Int) (buffer : List UInt8) :
    pwrite d e.name offset size buffer =
    (copyIn (withBlock d e.inode (blockNum d e.inode)) offset size buffer >>= fun block =>
    .ok ((withBlock d e.inode).bwrite (blockNum d e.inode) block, size)) := by
  rw [pwrite, access_eq h, ok_bind, if_pos (mem_map_of_mem he),
    if_neg (by decide), findInode_eq h he]
  rfl

lemma pwrite_absent (h : HoldsDir (d 1) es) (hname : name ∉ es.map Dentry.name) (offset size : Int)
    (buffer : List UInt8) : pwrite d name offset size buffer = .ok (d, -1) := by
  rw [pwrite, access_eq h, ok_bind, if_neg hname, if_pos (by decide)]

end

/-! ## Adding an entry -/

section

variable {buf : Block} {pos : Nat} {xs ys : List UInt8}

lemma Block.eq_of_bytes {b b' : Block} (h : b.bytes = b'.bytes) : b = b' := by
  cases b
  cases b'
  cases h
  rfl

/-- Two copies that lie one after the other are like one. -/
lemma memcpy_memcpy : (memcpy buf pos xs >>= fun b => memcpy b (pos + xs.length) ys) =
    memcpy buf pos (xs ++ ys) := by
  by_cases hx : pos + xs.length ≤ blockSize
  · rw [memcpy, dif_pos hx, ok_bind, memcpy, memcpy]
    by_cases hy : pos + xs.length + ys.length ≤ blockSize
    · rw [dif_pos hy, dif_pos (by rw [length_append]; omega)]
      congr 1
      apply Block.eq_of_bytes
      exact splice_splice (by rw [buf.size]; exact hx)
    · rw [dif_neg hy, dif_neg (by rw [length_append]; omega)]
  · rw [memcpy, dif_neg hx, memcpy, dif_neg (by rw [length_append]; omega)]
    rfl

/-- The four copies write the text of the entry. -/
lemma addDentry_eq (name : CString) (inodeNum : Nat) : addDentry buf pos name inodeNum =
    memcpy buf pos (Dentry.text ⟨name, inodeNum⟩) := by
  have htext : Dentry.text ⟨name, inodeNum⟩ =
      name.chars ++ ([slash] ++ (inodeNumBuf inodeNum ++ [slash])) := rfl
  have hlast : pos + name.chars.length + (inodeNumBuf inodeNum).length + 1 =
      pos + name.chars.length + [slash].length + (inodeNumBuf inodeNum).length := by
    rw [length_singleton]
    omega
  rw [htext, ← memcpy_memcpy, addDentry]
  simp only [← memcpy_memcpy, hlast, length_singleton]

lemma memcpy_ok (h : pos + xs.length ≤ blockSize) :
    memcpy buf pos xs = .ok (buf.patch pos xs h) := by
  rw [memcpy, dif_pos h]

/-- A copy of a range of the caller's buffer to a range of the block. -/
lemma copyIn_ok (block : Block) {offset size : Int} {buffer : List UInt8}
    (hoffset : 0 ≤ offset) (hsize : 0 ≤ size) (hbuffer : size ≤ buffer.length)
    (hend : offset + size ≤ blockSize) : ∃ h, copyIn block offset size buffer =
    .ok (block.patch offset.toNat (buffer.take size.toNat) h) := by
  have hlen : offset.toNat + (buffer.take size.toNat).length ≤ blockSize := by
    rw [length_take]
    omega
  exact ⟨hlen, by rw [copyIn, if_pos ⟨hoffset, hsize, hbuffer⟩, memcpy_ok hlen]⟩

/-- The directory with an entry written behind its text. -/
lemma HoldsDir.add {es : List Dentry} {e : Dentry} (h : HoldsDir buf es)
    (he : e.Valid) (hnew : e.name ∉ es.map Dentry.name)
    (hroom : (dirText es).length + e.text.length ≤ blockSize) :
    HoldsDir (buf.patch (dirText es).length e.text hroom) (es ++ [e]) := by
  obtain ⟨n, hn⟩ := h.text
  exact {
    text := by
      refine ⟨n - e.text.length, ?_⟩
      change splice buf.bytes (dirText es).length e.text = _
      rw [hn, splice_text, dirText_concat]
    valid := by
      intro e' he'
      rcases mem_append.1 he' with he' | he'
      · exact h.valid e' he'
      rw [mem_singleton.1 he']
      exact he
    nodup := by
      rw [map_append, nodup_append]
      refine ⟨h.nodup, pairwise_singleton _ _, ?_⟩
      rintro a ha b hb rfl
      rw [map_singleton, mem_singleton] at hb
      exact hnew (hb ▸ ha) }

/-- The directory of a block of zeros is empty. -/
lemma holdsDir_zero : HoldsDir Block.zero [] where
  text := ⟨blockSize, rfl⟩
  valid := fun _ he => absurd he not_mem_nil
  nodup := nodup_nil

end

/-! ## The room in the directory -/

/-- The length of the text in a directory block: up to its last `'/'`. -/
def dirLength (buf : Block) : Nat := (buf.bytes.reverse.dropWhile (· != slash)).length

lemma dirText_reverse (es : List Dentry) :
    (dirText es).reverse.dropWhile (· != slash) = (dirText es).reverse := by
  rcases eq_nil_or_concat' es with rfl | ⟨es, e, rfl⟩
  · rfl
  rw [dirText_concat, Dentry.text, reverse_append]
  simp

lemma HoldsDir.dirLength_eq {buf : Block} {es : List Dentry}
    (h : HoldsDir buf es) : dirLength buf = (dirText es).length := by
  obtain ⟨n, hn⟩ := h.text
  have hzeros : ∀ c ∈ List.replicate n (0 : UInt8), (c != slash) = true := by
    intro c hc
    rw [eq_of_mem_replicate hc]
    rfl
  rw [dirLength, hn, reverse_append, reverse_replicate,
    dropWhile_append_of_pos hzeros, dirText_reverse, length_reverse]

/-! ## Creating a file -/

section

variable {d : Disk} {es : List Dentry} {name : CString}

/-- An existing file is not created again. -/
lemma creat_existing (h : HoldsDir (d 1) es)
    (hname : name ∈ es.map Dentry.name) : creat d name = .ok (d, -1) := by
  rw [creat, access_eq h, ok_bind, if_pos hname, if_pos rfl]

/-- A new entry goes behind the text, with the inode that the search ended at. -/
lemma creat_new (h : HoldsDir (d 1) es) (hname : name ∉ es.map Dentry.name) :
    creat d name = (memcpy (d 1) (dirText es).length
    (Dentry.text ⟨name, newInode (d 0)⟩) >>= fun dentryBuf =>
    .ok ((d.bwrite 0 (takenMap (d 0))).bwrite 1 dentryBuf, 0)) := by
  obtain ⟨n, hn⟩ := h.text
  have hlast : lastPos (d 1) maxRounds 0 0 = (dirText es).length := by
    rw [lastPos_text maxRounds 0 h.valid hn (le_of_lt h.rounds), zero_add]
  rw [creat, access_eq h, ok_bind, if_neg hname, if_neg (by decide), hlast, ← addDentry_eq]

end

/-! ## The map -/

/-- The search for an inode stops at the first zero, or behind the last byte. -/
lemma takeInode_cases (cs : List UInt8) :
    ∀ n, (∃ k : Nat, cs[k]? = some 0 ∧ (∀ j : Nat, j < k → cs[j]? ≠ some 0) ∧
    takeInode cs n = (cs.set k 1, n + k)) ∨
    ((∀ j : Nat, cs[j]? ≠ some 0) ∧ takeInode cs n = (cs, n + cs.length)) := by
  induction cs with
  | nil =>
    intro n
    exact .inr ⟨fun j => by simp, rfl⟩
  | cons c cs ih =>
    intro n
    by_cases hc : c = 0
    · refine .inl ⟨0, by rw [List.getElem?_cons_zero, hc],
        fun j hj => absurd hj (Nat.not_lt_zero j), ?_⟩
      rw [takeInode, if_pos hc]
      rfl
    have hhead : (c :: cs)[0]? ≠ some 0 := by
      rw [List.getElem?_cons_zero]
      exact fun h => hc (Option.some.inj h)
    rcases ih (n + 1) with ⟨k, hk, hbefore, heq⟩ | ⟨hall, heq⟩
    · refine .inl ⟨k + 1, hk, ?_, ?_⟩
      · intro j hj
        cases j with
        | zero => exact hhead
        | succ j => exact hbefore j (by omega)
      · rw [takeInode, if_neg hc, heq, set_cons_succ]
        congr 1
        omega
    refine .inr ⟨?_, ?_⟩
    · intro j
      cases j with
      | zero => exact hhead
      | succ j => exact hall j
    · rw [takeInode, if_neg hc, heq, length_cons]
      congr 1
      omega

/-- Some inode is marked as free. -/
def FreeInode (map : Block) : Prop := ∃ i, 2 ≤ i ∧ i < 64 ∧ map.byte i = 0

instance (map : Block) : Decidable (FreeInode map) :=
  decidable_of_iff (∃ i, i < 64 ∧ 2 ≤ i ∧ map.byte i = 0) ⟨fun ⟨i, h1, h2, h3⟩ => ⟨i, h2, h1, h3⟩,
      fun ⟨i, h1, h2, h3⟩ => ⟨i, h2, h1, h3⟩⟩

lemma getElem?_inodeBytes (map : Block) {j : Nat} (h : j < 62) :
    (inodeBytes map)[j]? = some (map.byte (2 + j)) := by
  have hlt : 2 + j < map.bytes.length := by
    rw [map.size, blockSize]
    omega
  rw [inodeBytes, slice, List.getElem?_take_of_lt (by omega), List.getElem?_drop,
    Block.byte, getD_eq_getElem?_getD, List.getElem?_eq_getElem hlt]
  rfl

/-- The inode that is taken is the first free one, or 64. -/
lemma newInode_cases (map : Block) :
    (2 ≤ newInode map ∧ newInode map < 64 ∧ map.byte (newInode map) = 0 ∧
    (∀ i, 2 ≤ i → i < newInode map → map.byte i ≠ 0) ∧
    (takeInode (inodeBytes map) 2).1 = (inodeBytes map).set (newInode map - 2) 1) ∨
    (¬ FreeInode map ∧ newInode map = 64) := by
  rcases takeInode_cases (inodeBytes map) 2 with ⟨k, hk, hbefore, heq⟩ | ⟨hall, heq⟩
  · have hnew : newInode map = 2 + k := by rw [newInode, heq]
    have hlt : k < 62 := by
      rw [← length_inodeBytes map]
      exact (List.getElem?_eq_some_iff.1 hk).1
    rw [getElem?_inodeBytes map hlt] at hk
    refine .inl ⟨by omega, by omega, hnew ▸ Option.some.inj hk, ?_, ?_⟩
    · intro i hlo hhi hzero
      refine hbefore (i - 2) (by omega) ?_
      rw [getElem?_inodeBytes map (by omega), show 2 + (i - 2) = i by omega, hzero]
    · rw [heq, hnew, Nat.add_sub_cancel_left]
  · refine .inr ⟨?_, by rw [newInode, heq, length_inodeBytes]⟩
    rintro ⟨i, hlo, hhi, hzero⟩
    refine hall (i - 2) ?_
    rw [getElem?_inodeBytes map (by omega), show 2 + (i - 2) = i by omega, hzero]

lemma newInode_lt_iff (map : Block) : newInode map < 64 ↔ FreeInode map := by
  rcases newInode_cases map with ⟨hlo, hhi, hzero, _⟩ | ⟨hnone, heq⟩
  · exact ⟨fun _ => ⟨_, hlo, hhi, hzero⟩, fun _ => hhi⟩
  · exact ⟨fun h => absurd h (by omega), fun h => absurd h hnone⟩

lemma two_le_newInode (map : Block) : 2 ≤ newInode map := by
  rcases newInode_cases map with ⟨hlo, _⟩ | ⟨_, heq⟩
  · exact hlo
  · omega

/-- The search for a block ends at some block that was free, if there is one. -/
lemma takeBlocks_cases (cs : List UInt8) : ∀ i block, (0 ∉ cs ∧ (takeBlocks cs i block).2 = block) ∨
    ∃ j, (takeBlocks cs i block).2 = some j ∧ i ≤ j ∧ j < i + cs.length := by
  induction cs with
  | nil =>
    intro i block
    exact .inl ⟨not_mem_nil, rfl⟩
  | cons c cs ih =>
    intro i block
    rw [takeBlocks, length_cons]
    split
    case isTrue hc =>
      rcases ih (i + 1) (some i) with ⟨_, heq⟩ | ⟨j, heq, hlo, hhi⟩
      · exact .inr ⟨i, heq, le_refl i, by omega⟩
      · exact .inr ⟨j, heq, by omega, by omega⟩
    case isFalse hc =>
      rcases ih (i + 1) block with ⟨hnone, heq⟩ | ⟨j, heq, hlo, hhi⟩
      · refine .inl ⟨?_, heq⟩
        rw [mem_cons, not_or]
        exact ⟨fun hzero => hc hzero.symm, hnone⟩
      · exact .inr ⟨j, heq, by omega, by omega⟩

/-! ## Reading a patched block -/

section

variable (b : Block) (pos : Nat) (src : List UInt8) (h : pos + src.length ≤ blockSize) {i : Nat}

lemma byte_patch_inside (hlo : pos ≤ i) (hhi : i < pos + src.length) :
    (b.patch pos src h).byte i = src.getD (i - pos) 0 := by
  rw [Block.byte, getD_eq_getElem?_getD, Block.patch, getElem?_splice (by rw [b.size]; omega),
    if_pos ⟨hlo, hhi⟩, getD_eq_getElem?_getD]

lemma byte_patch_outside (hi : i < pos ∨ pos + src.length ≤ i) :
    (b.patch pos src h).byte i = b.byte i := by
  rw [Block.byte, getD_eq_getElem?_getD, Block.patch, getElem?_splice (by rw [b.size]; omega),
    if_neg (by omega), Block.byte, getD_eq_getElem?_getD]

end

/-- The number that was stored in an inode is read from it. -/
lemma int_setInt (inode : Block) (h : n < 65536) : (inode.setInt n).int = n := by
  have hbyte : ∀ i, i < 4 → (inode.setInt n).byte i = (intBytes n).getD i 0 := by
    intro i hi
    rw [Block.setInt, byte_patch_inside _ _ _ _ (Nat.zero_le i)
      (by rw [zero_add]; exact hi), Nat.sub_zero]
  have hsum : ((intBytes n).getD 0 0).toNat + 256 * (((intBytes n).getD 1 0).toNat
      + 256 * (((intBytes n).getD 2 0).toNat
        + 256 * (((intBytes n).getD 3 0).toNat + 256 * 0))) = n := by
    simp only [intBytes, getD_cons_zero, getD_cons_succ, UInt8.toNat_ofNat']
    omega
  have hload : load (inode.setInt n).byte 0 4 = n := by
    simp only [load, zero_add, hbyte 0 (by omega), hbyte 1 (by omega),
      hbyte 2 (by omega), hbyte 3 (by omega)]
    exact hsum
  rw [Block.int, hload, Int.bmod_eq_of_le]
  · change -((2 ^ 32 : Nat) / 2 : Int) ≤ n
    omega
  change (n : Int) < ((2 ^ 32 : Nat) + 1) / 2
  omega

/-! ## The block of a file -/

/-- The number of a file's block as it stands in the inode: none yet, or the
number of a data block. -/
def BlockNumber (n : Int) : Prop := n = 0 ∨ 64 ≤ n ∧ n < 512

/-- The inode is given a data block, or stays as it is when none is free. -/
lemma inodeWithBlock_cases (map inode : Block) :
    (0 ∉ dataBytes map ∧ inodeWithBlock map inode = inode) ∨ 64 ≤ (inodeWithBlock map inode).int ∧
    (inodeWithBlock map inode).int < 512 := by
  rcases takeBlocks_cases (dataBytes map) 64 none with ⟨hnone, heq⟩ | ⟨j, heq, hlo, hhi⟩
  · exact .inl ⟨hnone, by rw [inodeWithBlock, heq]⟩
  rw [length_dataBytes] at hhi
  right
  rw [inodeWithBlock, heq]
  change 64 ≤ (inode.setInt j).int ∧ (inode.setInt j).int < 512
  rw [int_setInt inode (by omega)]
  omega

section

variable {d : Disk} {k : Int}

lemma blockNum_number (h : BlockNumber (d k).int) : BlockNumber (blockNum d k) := by
  rw [blockNum]
  split
  · rcases inodeWithBlock_cases (d 0) (d k) with ⟨_, heq⟩ | hint
    · rw [heq]
      exact h
    · exact .inr hint
  · exact h

/-- Only the map and the inode are written when a block is looked for. -/
lemma withBlock_other {x : Int} (h0 : x ≠ 0) (hk : x ≠ k) : withBlock d k x = d x := by
  rw [withBlock]
  split
  · rw [Disk.bwrite, update_of_ne hk, Disk.bwrite, update_of_ne h0]
  · rfl

/-- The inode holds the number of the block that is written. -/
lemma withBlock_inode : (withBlock d k k).int = blockNum d k := by
  rw [withBlock, blockNum]
  split
  · rw [Disk.bwrite, update_self]
  · rfl

/-- A file that has a block keeps it, and nothing else is written. -/
lemma withBlock_of_block (h : 64 ≤ (d k).int) : withBlock d k = d := by
  rw [withBlock, if_neg (by omega)]

lemma blockNum_of_block (h : 64 ≤ (d k).int) : blockNum d k = (d k).int := by
  rw [blockNum, if_neg (by omega)]

end

end ChCore.Userland.NaiveFs
