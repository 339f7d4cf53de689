import ChCore.Kernel.MemObject
import ChCore.Kernel.PmoMemory
import ChCore.Lib.Runs

/-!
# Reading and writing memory objects

`read_write_pmo`. For an object of type `PMO_ANONYM` it goes from page to page
with the offset in the object, but not with the address of the user's buffer:
every page is copied from, or to, the start of the buffer. So the bytes that a
write stores are those of the buffer only within one page.

## Main results

* `pmo_round_trip_iff`: when a read returns what was written
* `phys_addr_answers_iff`: when `sys_get_phys_addr` answers
-/

namespace ChCore.Kernel

open Lib.ByteMem Nat Lib.Runs

/-- An object, physical memory, and the memory of the process that calls. -/
structure PmoStore where
  pmo : PmobjectOf Radix
  mem : PhysMem
  user : Mem

/-- `op_type`. -/
inductive RwOp
  | write
  | read
  deriving DecidableEq, Repr

/-- `copy_from_user` or `copy_to_user` for the physical address `pa`. -/
def copyUser (op : RwOp) (st : PmoStore) (pa userBuf size : Nat) : Exec PmoStore :=
  if userBuf ≥ kbase then .error .bug
  else
    match op with
    | .write => .ok { st with
      mem := { st.mem with
        bytes := copy st.mem.bytes pa st.user userBuf size } }
    | .read => .ok { st with user := copy st.user userBuf st.mem.bytes pa size }

section

variable (getPage : Nat → Option Nat)

/-- The loop for `PMO_ANONYM`. A round moves at least one byte, so that there
are at most `size` rounds. -/
def readWriteLoop (op : RwOp) (userBuf : Nat) : Nat → PmoStore → Nat → Nat → Exec PmoStore
  | 0, st, _, _ => .ok st
  | rounds + 1, st, offset, size =>
    if size = 0 then .ok st
    else do
      let index := roundDown offset / pageSize
      let (mem, pmo, pa) ← touchPage getPage st.mem st.pmo index
      let offsetInPage := offset - roundDown offset
      let toReadWrite := min (pageSize - offsetInPage) size
      let st ← copyUser op { st with mem, pmo } (pa + offsetInPage) userBuf toReadWrite
      -- `user_buf` stays as it is
      readWriteLoop op userBuf rounds st (offset + toReadWrite) (size - toReadWrite)

/-- `read_write_pmo` on the object that the capability denotes. -/
def readWritePmo (st : PmoStore) (offset userBuf size : Nat) (op : RwOp) : Exec (PmoStore × Int) :=
  if st.pmo.type ≠ .data ∧ st.pmo.type ≠ .dataNocache ∧ st.pmo.type ≠ .anonym then .ok (st, -einval)
  else if u64 (offset + size) < offset ∨ u64 (offset + size) > st.pmo.size then
    .ok (st, -einval)
  else if st.pmo.type = .data ∨ st.pmo.type = .dataNocache then do
    let st ← copyUser op st (st.pmo.start + offset) userBuf size
    return (st, 0)
  else do
    let st ← readWriteLoop getPage op userBuf size st offset size
    return (st, 0)

/-- `sys_write_pmo`. -/
def sysWritePmo (st : PmoStore) (offset userPtr len : Nat) : Exec (PmoStore × Int) :=
  readWritePmo getPage st offset userPtr len .write

/-- `sys_read_pmo`. -/
def sysReadPmo (st : PmoStore) (offset userPtr len : Nat) : Exec (PmoStore × Int) :=
  readWritePmo getPage st offset userPtr len .read

end

/-! ## One page -/

section

variable {getPage : Nat → Option Nat} {st : PmoStore}

/-- The byte at offset `x` of the object. -/
def PmoStore.byte (st : PmoStore) (x : Nat) : UInt8 := pmoByte st.mem.bytes st.pmo x

lemma sub_roundDown (offset : Nat) : offset - roundDown offset = offset % pageSize := by
  unfold roundDown pageSize
  omega

variable {offset size : Nat}

/-- The chunk of a round lies in one page. -/
lemma chunk_page {i : Nat} (hi : i < min (pageSize - (offset - roundDown offset)) size) :
    (offset + i) / pageSize = roundDown offset / pageSize ∧
    (offset + i) % pageSize = offset - roundDown offset + i := by
  unfold roundDown pageSize at *
  omega

/-- What one round does, before the bytes are moved. -/
structure PageReady (getPage : Nat → Option Nat) (st st' : PmoStore) (index pa : Nat) : Prop where
  pages : PagesOk getPage st'.mem st'.pmo
  here : st'.pmo.radix.slot index = some pa
  type : st'.pmo.type = st.pmo.type
  size : st'.pmo.size = st.pmo.size
  bytes : ∀ x, x < 2 ^ 64 → st'.byte x = st.byte x
  user : st'.user = st.user

lemma Touched.ready {mem' : PhysMem} {pmo' : PmobjectOf Radix}
    {index pa : Nat} (h : Touched getPage st.mem mem' st.pmo pmo' index pa) :
    PageReady getPage st { st with mem := mem', pmo := pmo' } index pa :=
  ⟨h.pages, h.here, h.type, h.size, h.bytes, rfl⟩

/-- Bytes are written to a page of the object. -/
lemma byte_write (hpages : EndlessPages getPage) (st : PmoStore)
    (hok : PagesOk getPage st.mem st.pmo)
    (htype : st.pmo.type = .anonym ∨ st.pmo.type = .shm) {pa n : Nat}
    (hslot : st.pmo.radix.slot (roundDown offset / pageSize) = some pa)
    (hn : n ≤ pageSize - (offset - roundDown offset))
    (hlt : offset + n < 2 ^ 64) (src : Mem) (b x : Nat) (hx : x < 2 ^ 64) :
    pmoByte (copy st.mem.bytes (pa + (offset - roundDown offset)) src b n) st.pmo x =
    if offset ≤ x ∧ x < offset + n then src (b + (x - offset)) else st.byte x := by
  have hkey : x / pageSize < 2 ^ 64 := (div_le_self _ _).trans_lt hx
  have hmod : x % pageSize < pageSize := mod_lt _ (by decide)
  simp only [PmoStore.byte, pmoByte, if_pos htype]
  by_cases hin : offset ≤ x ∧ x < offset + n
  · obtain ⟨i, rfl⟩ : ∃ i, x = offset + i := ⟨x - offset, by omega⟩
    have hi : i < n := by omega
    obtain ⟨hdiv, hrem⟩ := @chunk_page offset n i (by omega)
    rw [if_pos hin, hdiv, hslot, hrem, Nat.add_sub_cancel_left]
    dsimp only
    rw [← add_assoc]
    exact copy_of_inside hi
  rw [if_neg hin]
  cases hq : st.pmo.radix.slot (x / pageSize) with
  | none => rfl
  | some q =>
    by_cases hpage : x / pageSize = roundDown offset / pageSize
    · rw [hpage, hslot, Option.some.injEq] at hq
      subst hq
      apply copy_of_outside
      unfold roundDown pageSize at *
      omega
    have hindex : roundDown offset / pageSize < 2 ^ 64 := by
      unfold roundDown pageSize
      omega
    apply copy_of_outside
    by_contra hclash
    obtain ⟨i, hi⟩ : ∃ i, q + x % pageSize = pa + i := ⟨q + x % pageSize - pa, by omega⟩
    refine hok.apart hpages.toFreshObjectPages hindex hkey hslot hq hpage (i := i) ?_ hmod hi
    unfold roundDown at *
    omega

/-! ## The loop -/

/-- The chunk that a round moves is not empty. -/
lemma chunk_pos (offset : Nat) (hsize : size ≠ 0) :
    0 < min (pageSize - (offset - roundDown offset)) size := by
  unfold roundDown pageSize
  omega

/-- One round, up to the point where the bytes are moved. -/
lemma readWriteLoop_succ (hpages : EndlessPages getPage) (hok : PagesOk getPage st.mem st.pmo)
    (htype : st.pmo.type = .anonym ∨ st.pmo.type = .shm)
    (hoffset : offset < 2 ^ 64) (hsize : size ≠ 0) (op : RwOp)
    (userBuf rounds : Nat) :
    ∃ st' pa, PageReady getPage st st' (roundDown offset / pageSize) pa ∧
      readWriteLoop getPage op userBuf (rounds + 1) st offset size = (do
        let n := min (pageSize - (offset - roundDown offset)) size
        let st ← copyUser op st' (pa + (offset - roundDown offset)) userBuf n
        readWriteLoop getPage op userBuf rounds st (offset + n) (size - n)) := by
  have hindex : roundDown offset / pageSize < 2 ^ 64 := by
    unfold roundDown pageSize
    omega
  obtain ⟨mem', pmo', pa, htouch, htouched⟩ := touchPage_spec hpages hok htype hindex
  refine ⟨{ st with mem := mem', pmo := pmo' }, pa, htouched.ready, ?_⟩
  simp only [readWriteLoop, if_neg hsize, htouch, ok_bind]

/-- Where in the buffer the byte for offset `x` is taken from. -/
def bufferPos (offset x : Nat) : Nat := x - max offset (roundDown x)

variable {x : Nat}

lemma bufferPos_first (hlo : offset ≤ x)
    (hhi : x < offset + min (pageSize - (offset - roundDown offset)) size) :
    bufferPos offset x = x - offset := by
  unfold bufferPos roundDown pageSize at *
  omega

/-- The rounds after the first start at a page. -/
lemma bufferPos_next (hlo : offset + min (pageSize - (offset - roundDown offset)) size ≤ x)
    (hhi : x < offset + size) :
    bufferPos (offset + min (pageSize - (offset - roundDown offset)) size) x =
    bufferPos offset x := by
  unfold bufferPos roundDown pageSize at *
  omega

variable {userBuf : Nat}

/-- **The write loop** stores to every byte of the range, and each page gets the
bytes from the start of the buffer on. -/
theorem writeLoop_spec (hpages : EndlessPages getPage) (hbuf : userBuf < kbase) (rounds : Nat) :
    ∀ (st : PmoStore) (offset size : Nat), PagesOk getPage st.mem st.pmo →
    st.pmo.type = .anonym → size ≤ rounds → offset + size < 2 ^ 64 →
    ∃ st', readWriteLoop getPage .write userBuf rounds st offset size = .ok st' ∧
    PagesOk getPage st'.mem st'.pmo ∧ st'.pmo.type = st.pmo.type ∧
    st'.pmo.size = st.pmo.size ∧ st'.user = st.user ∧
    ∀ x, x < 2 ^ 64 → st'.byte x = if offset ≤ x ∧ x < offset + size then
    st.user (userBuf + bufferPos offset x) else st.byte x := by
  induction rounds with
  | zero =>
    intro st offset size hok _ hsize _
    refine ⟨st, rfl, hok, rfl, rfl, rfl, fun x _ => ?_⟩
    rw [if_neg (by omega)]
  | succ rounds ih =>
    intro st offset size hok htype hsize hlt
    by_cases hzero : size = 0
    · refine ⟨st, by simp [readWriteLoop, hzero], hok, rfl, rfl, rfl, fun x _ => ?_⟩
      rw [if_neg (by omega)]
    obtain ⟨st1, pa, hready, hloop⟩ := readWriteLoop_succ hpages hok
      (.inl htype) (by omega : offset < 2 ^ 64) hzero .write userBuf rounds
    have hpos := chunk_pos offset hzero
    have htype1 := hready.type.trans htype
    dsimp only at hloop
    generalize hn : min (pageSize - (offset - roundDown offset)) size = n at hloop hpos
    have hwrite := byte_write hpages st1 hready.pages (.inl htype1)
      hready.here (n := n) (by omega) (by omega) st1.user userBuf
    have hcopy : copyUser .write st1 (pa + (offset - roundDown offset))
        userBuf n = .ok { st1 with mem := { st1.mem with
          bytes := copy st1.mem.bytes (pa + (offset - roundDown offset))
            st1.user userBuf n } } := by
      simp [copyUser, not_le.mpr hbuf]
    rw [hcopy, ok_bind] at hloop
    obtain ⟨st', hrest, hok', htype', hsize', huser', hbyte'⟩ :=
      ih { st1 with mem := { st1.mem with
        bytes := copy st1.mem.bytes (pa + (offset - roundDown offset))
          st1.user userBuf n } } (offset + n) (size - n)
        ⟨hready.pages.issued, hready.pages.single⟩ htype1 (by omega)
        (by omega)
    refine ⟨st', hloop.trans hrest, hok', htype'.trans hready.type,
      hsize'.trans hready.size, huser'.trans hready.user, fun x hx => ?_⟩
    rw [hbyte' x hx]
    have hwritten := hwrite x hx
    by_cases hlater : offset + n ≤ x ∧ x < offset + n + (size - n)
    · rw [if_pos hlater, if_pos (by omega), hready.user]
      subst hn
      rw [bufferPos_next hlater.1 (by omega)]
    rw [if_neg hlater]
    refine hwritten.trans ?_
    by_cases hfirst : offset ≤ x ∧ x < offset + n
    · rw [if_pos hfirst, if_pos (by omega), hready.user]
      subst hn
      rw [bufferPos_first hfirst.1 hfirst.2]
    · rw [if_neg hfirst, if_neg (by omega), hready.bytes x hx]

/-- How far into the buffer the pieces of a range reach: a range that is not in
one page is moved page by page, each time from the start of the buffer. -/
def reach (offset size : Nat) : Nat := max (min (pageSize - offset % pageSize) size)
    (min pageSize (size - (pageSize - offset % pageSize)))

lemma reach_le (offset size : Nat) : reach offset size ≤ size := by
  unfold reach
  omega

lemma reach_eq_iff (offset size : Nat) :
    reach offset size = size ↔ offset % pageSize + size ≤ pageSize := by
  unfold reach pageSize
  omega

/-- From the start of a page on. -/
lemma reach_of_page (hpage : offset % pageSize = 0) (size : Nat) :
    reach offset size = min pageSize size := by
  rw [reach, hpage, Nat.sub_zero]
  omega

lemma reach_next {n : Nat} (hn : min (pageSize - (offset - roundDown offset)) size = n) :
    reach offset size = max n (reach (offset + n) (size - n)) := by
  rw [sub_roundDown] at hn
  have hmod : offset % pageSize < pageSize := mod_lt _ (by decide)
  by_cases hpage : size ≤ pageSize - offset % pageSize
  · obtain rfl : n = size := by omega
    have hrest := reach_le (offset + n) (n - n)
    have hwhole := (reach_eq_iff offset n).mpr (by omega)
    omega
  -- the next round starts at a page
  have hnext : (offset + n) % pageSize = 0 := by
    unfold pageSize at *
    omega
  rw [reach_of_page hnext, reach]
  omega

/-- **The read loop** leaves the object alone, and what it puts into the buffer
is for every position a byte of the range that belongs there. -/
theorem readLoop_spec (hpages : EndlessPages getPage) (hbuf : userBuf < kbase) (rounds : Nat) :
    ∀ (st : PmoStore) (offset size : Nat), PagesOk getPage st.mem st.pmo →
    st.pmo.type = .anonym → size ≤ rounds → offset + size < 2 ^ 64 →
    ∃ st', readWriteLoop getPage .read userBuf rounds st offset size = .ok st' ∧
    PagesOk getPage st'.mem st'.pmo ∧ st'.pmo.type = st.pmo.type ∧ st'.pmo.size = st.pmo.size ∧
    (∀ x, x < 2 ^ 64 → st'.byte x = st.byte x) ∧
    (∀ j, reach offset size ≤ j → st'.user (userBuf + j) = st.user (userBuf + j)) ∧
    (∀ j, j < reach offset size → ∃ x, offset ≤ x ∧ x < offset + size ∧
    bufferPos offset x = j ∧ st'.user (userBuf + j) = st.byte x) := by
  induction rounds with
  | zero =>
    intro st offset size hok _ hsize _
    have hreach := reach_le offset size
    refine ⟨st, rfl, hok, rfl, rfl, fun _ _ => rfl, fun _ _ => rfl, fun j hj => ?_⟩
    omega
  | succ rounds ih =>
    intro st offset size hok htype hsize hlt
    by_cases hzero : size = 0
    · have hreach := reach_le offset size
      refine ⟨st, by simp [readWriteLoop, hzero], hok, rfl, rfl,
        fun _ _ => rfl, fun _ _ => rfl, fun j hj => ?_⟩
      omega
    obtain ⟨st1, pa, hready, hloop⟩ := readWriteLoop_succ hpages hok
      (.inl htype) (by omega : offset < 2 ^ 64) hzero .read userBuf rounds
    have hpos := chunk_pos offset hzero
    have htype1 := hready.type.trans htype
    dsimp only at hloop
    generalize hn : min (pageSize - (offset - roundDown offset)) size = n at hloop hpos
    have hnext := reach_next hn
    have hcopy : copyUser .read st1 (pa + (offset - roundDown offset))
        userBuf n = .ok { st1 with
          user := copy st1.user userBuf st1.mem.bytes
            (pa + (offset - roundDown offset)) n } := by
      simp [copyUser, not_le.mpr hbuf]
    rw [hcopy, ok_bind] at hloop
    obtain ⟨st', hrest, hok', htype', hsize', hbyte', hout', hin'⟩ :=
      ih { st1 with
          user := copy st1.user userBuf st1.mem.bytes
            (pa + (offset - roundDown offset)) n } (offset + n) (size - n)
        hready.pages htype1 (by omega) (by omega)
    refine ⟨st', hloop.trans hrest, hok', htype'.trans hready.type,
      hsize'.trans hready.size, fun x hx => ?_, fun j hj => ?_,
      fun j hj => ?_⟩
    · exact (hbyte' x hx).trans (hready.bytes x hx)
    · rw [hout' j (by omega)]
      exact (copy_of_outside (by omega)).trans (by rw [hready.user])
    by_cases hlater : j < reach (offset + n) (size - n)
    · obtain ⟨x, hlo, hhi, hbufPos, huser⟩ := hin' j hlater
      refine ⟨x, by omega, by omega, ?_, ?_⟩
      · rw [← hbufPos]
        subst hn
        exact (bufferPos_next hlo (by omega)).symm
      · rw [huser, ← hready.bytes x (by omega)]
        rfl
    -- the position was last written by the first round
    have hj' : j < n := by omega
    obtain ⟨hdiv, hrem⟩ := @chunk_page offset size j (by omega)
    refine ⟨offset + j, by omega, by omega, ?_, ?_⟩
    · have hfirst : bufferPos offset (offset + j) = offset + j - offset :=
        bufferPos_first (by omega) (by rw [hn]; omega)
      rw [hfirst, Nat.add_sub_cancel_left]
    rw [hout' j (by omega), ← hready.bytes _ (by omega)]
    refine (copy_of_inside hj').trans ?_
    simp only [PmoStore.byte, pmoByte, htype1, true_or, if_true, hdiv, hready.here, hrem, add_assoc]

/-! ## The system calls -/

/-- An object of one of the two types, with pages of its own. -/
structure StoreOk (getPage : Nat → Option Nat) (st : PmoStore) : Prop where
  type : st.pmo.type = .data ∨ st.pmo.type = .anonym
  size : st.pmo.size < 2 ^ 64
  pages : PagesOk getPage st.mem st.pmo

/-- The range is moved in one piece. -/
def Straight (type : PmoType) (offset len : Nat) : Prop :=
  type = .data ∨ offset % pageSize + len ≤ pageSize

instance (type : PmoType) (offset len : Nat) : Decidable (Straight type offset len) :=
  inferInstanceAs (Decidable (_ ∨ _))

/-- How far into the buffer a call for the range reaches. -/
def moved (type : PmoType) (offset len : Nat) : Nat :=
  if type = .data then len else reach offset len

/-- Where in the buffer the byte for offset `x` is, in a call for the range
that starts at `offset`. -/
def bufferIndex (type : PmoType) (offset x : Nat) : Nat :=
  if type = .data then x - offset else bufferPos offset x

lemma moved_eq_iff (type : PmoType) (offset len : Nat) :
    moved type offset len = len ↔ Straight type offset len := by
  unfold moved Straight
  by_cases hdata : type = .data
  · simp [hdata]
  · simp [hdata, reach_eq_iff]

variable {len : Nat}

lemma rangeOk (hsize : size < 2 ^ 64) (hin : offset + len ≤ size) :
    ¬ (u64 (offset + len) < offset ∨ u64 (offset + len) > size) := by
  rw [u64_of_lt (by omega)]
  omega

/-- **`sys_write_pmo`** stores to the bytes of the range and to no others. -/
theorem sysWritePmo_spec (hpages : EndlessPages getPage)
    (h : StoreOk getPage st) {userPtr : Nat} (hin : offset + len ≤ st.pmo.size)
    (hbuf : userPtr < kbase) : ∃ st', sysWritePmo getPage st offset userPtr len = .ok (st', 0) ∧
    StoreOk getPage st' ∧ st'.pmo.type = st.pmo.type ∧
    st'.pmo.size = st.pmo.size ∧ st'.user = st.user ∧
    ∀ x, x < 2 ^ 64 → st'.byte x = if offset ≤ x ∧ x < offset + len then
    st.user (userPtr + bufferIndex st.pmo.type offset x) else st.byte x := by
  have hlt := h.size
  have hrange := rangeOk hlt hin
  rcases h.type with htype | htype
  · refine ⟨{ st with mem := { st.mem with
      bytes := copy st.mem.bytes (st.pmo.start + offset) st.user userPtr len } },
      ?_, ⟨h.type, h.size, h.pages.issued, h.pages.single⟩, rfl, rfl, rfl,
      fun x _ => ?_⟩
    · simp [sysWritePmo, readWritePmo, htype, hrange, copyUser, not_le.mpr hbuf]
    simp only [PmoStore.byte, pmoByte, bufferIndex, htype, reduceCtorEq, or_self, if_false, if_true]
    by_cases hx : offset ≤ x ∧ x < offset + len
    · obtain ⟨i, rfl⟩ : ∃ i, x = offset + i := ⟨x - offset, by omega⟩
      rw [if_pos hx, Nat.add_sub_cancel_left, ← add_assoc]
      exact copy_of_inside (by omega)
    · rw [if_neg hx]
      exact copy_of_outside (by omega)
  · obtain ⟨st', hloop, hok', htype', hsize', huser', hbyte'⟩ :=
      writeLoop_spec hpages hbuf len st offset len h.pages htype le_rfl (by omega)
    refine ⟨st', ?_, ⟨.inr (htype'.trans htype), hsize' ▸ h.size, hok'⟩, htype',
      hsize', huser', fun x hx => ?_⟩
    · simp [sysWritePmo, readWritePmo, htype, hrange, hloop]
    · simpa [bufferIndex, htype] using hbyte' x hx

/-- **`sys_read_pmo`** leaves the bytes of the object as they are, and puts
bytes of the range into the buffer, as far as the pieces reach. -/
theorem sysReadPmo_spec (hpages : EndlessPages getPage) (h : StoreOk getPage st)
    {userPtr : Nat} (hin : offset + len ≤ st.pmo.size) (hbuf : userPtr < kbase) :
    ∃ st', sysReadPmo getPage st offset userPtr len = .ok (st', 0) ∧
    StoreOk getPage st' ∧ st'.pmo.type = st.pmo.type ∧ st'.pmo.size = st.pmo.size ∧
    (∀ x, x < 2 ^ 64 → st'.byte x = st.byte x) ∧
    (∀ j, moved st.pmo.type offset len ≤ j → st'.user (userPtr + j) = st.user (userPtr + j)) ∧
    (∀ j, j < moved st.pmo.type offset len → ∃ x, offset ≤ x ∧ x < offset + len ∧
    bufferIndex st.pmo.type offset x = j ∧ st'.user (userPtr + j) = st.byte x) := by
  have hlt := h.size
  have hrange := rangeOk hlt hin
  rcases h.type with htype | htype
  · refine ⟨{ st with user := copy st.user userPtr st.mem.bytes (st.pmo.start + offset) len },
      ?_, ⟨h.type, h.size, h.pages⟩, rfl, rfl, fun _ _ => rfl,
      fun j hj => ?_, fun j hj => ⟨offset + j, ?_⟩⟩
    · simp [sysReadPmo, readWritePmo, htype, hrange, copyUser, not_le.mpr hbuf]
    · rw [moved, if_pos htype] at hj
      exact copy_of_outside (by omega)
    rw [moved, if_pos htype] at hj
    refine ⟨by omega, by omega, by simp [bufferIndex, htype], ?_⟩
    simp only [PmoStore.byte, pmoByte, htype, reduceCtorEq, or_self, if_false]
    rw [← add_assoc]
    exact copy_of_inside hj
  · obtain ⟨st', hloop, hok', htype', hsize', hbyte', hout', hin'⟩ :=
      readLoop_spec hpages hbuf len st offset len h.pages htype le_rfl (by omega)
    refine ⟨st', ?_, ⟨.inr (htype'.trans htype), hsize' ▸ h.size, hok'⟩, htype',
      hsize', hbyte', ?_, ?_⟩
    · simp [sysReadPmo, readWritePmo, htype, hrange, hloop]
    · simpa [moved, htype] using hout'
    · simpa [moved, bufferIndex, htype] using hin'

/-- Calls that do not fit the object are refused. -/
lemma readWritePmo_refused (hsize : size < 2 ^ 64)
    (hout : st.pmo.size < offset + size) (op : RwOp) :
    readWritePmo getPage st offset userBuf size op = .ok (st, -einval) := by
  have hrange : u64 (offset + size) < offset ∨ u64 (offset + size) > st.pmo.size := by
    unfold u64
    omega
  unfold readWritePmo
  rw [if_pos hrange, ite_self]

/-! ## Runs -/

/-- What happens to an object: the two system calls, with the contents of the
caller's memory at that time, and page faults. -/
inductive PmoOp
  | write (user : Mem) (offset userPtr len : Nat)
  | read (user : Mem) (offset userPtr len : Nat)
  | fault (index : Nat)

/-- The arguments are machine words, and the buffer is in user space. -/
def PmoOp.Valid : PmoOp → Prop
  | .write _ offset userPtr len =>
    offset < 2 ^ 64 ∧ len < 2 ^ 64 ∧ userPtr < kbase
  | .read _ offset userPtr len =>
    offset < 2 ^ 64 ∧ len < 2 ^ 64 ∧ userPtr < kbase
  | .fault _ => True

/-- The call stores to the byte at offset `x` of an object of that size. -/
def PmoOp.Writes (size x : Nat) : PmoOp → Prop
  | .write _ offset _ len =>
    offset + len ≤ size ∧ offset ≤ x ∧ x < offset + len
  | _ => False

/-- One step in the life of the object. A fault does to it what
`handle_trans_fault` does. -/
def pmoStep (getPage : Nat → Option Nat) (st : PmoStore) : PmoOp → Exec PmoStore
  | .write user offset userPtr len => do
    let (st, _) ← sysWritePmo getPage { st with user } offset userPtr len
    return st
  | .read user offset userPtr len => do
    let (st, _) ← sysReadPmo getPage { st with user } offset userPtr len
    return st
  | .fault index =>
    if st.pmo.type ≠ .anonym ∧ st.pmo.type ≠ .shm then .error .bug
    else if index * pageSize ≥ st.pmo.size then .error .bug
    else do
      let (mem, pmo, _) ← touchPage getPage st.mem st.pmo index
      return { st with mem, pmo }

/-- `pmo_init` for an object of the given type and rounded size. -/
def newPmoStore (mem : PhysMem) (user : Mem) (type : PmoType) (start size : Nat) : PmoStore where
  pmo := { radix := newRadix, start, size, type }
  mem := mem
  user := user

/-- The bytes that were not written since the object was created read as zero
in an object whose pages come one by one. -/
structure PmoRunInv (getPage : Nat → Option Nat) (kind : PmoType) (bound : Nat)
    (written : Nat → Prop) (st : PmoStore) : Prop where
  ok : StoreOk getPage st
  type : st.pmo.type = kind
  size : st.pmo.size = bound
  zero : kind = .anonym → ∀ x, x < bound → ¬ written x → st.byte x = 0

variable {kind : PmoType} {bound : Nat}

lemma newPmoStore_inv {mem : PhysMem} {user : Mem} {start : Nat}
    (htype : kind = .data ∨ kind = .anonym) (hsize : bound < 2 ^ 64) :
    PmoRunInv getPage kind bound (fun _ => False) (newPmoStore mem user kind start bound) where
  ok :=
    { type := htype
      size := hsize
      pages := ⟨fun key pa _ h => by simp [newPmoStore, newRadix_slot] at h,
        fun key _ pa _ _ h => by simp [newPmoStore, newRadix_slot] at h⟩ }
  type := rfl
  size := rfl
  zero hanon x _ _ := by simp [PmoStore.byte, pmoByte, newPmoStore, hanon, newRadix_slot]

/-- A step that keeps type, size and bytes keeps the invariant. -/
lemma PmoRunInv.same {written written' : Nat → Prop} {st st' : PmoStore}
    (h : PmoRunInv getPage kind bound written st)
    (hmore : ∀ x, written x → written' x) (hok : StoreOk getPage st')
    (htype : st'.pmo.type = st.pmo.type) (hsize : st'.pmo.size = st.pmo.size)
    (hbyte : ∀ x, x < bound → ¬ written' x → st'.byte x = st.byte x) :
    PmoRunInv getPage kind bound written' st' where
  ok := hok
  type := htype.trans h.type
  size := hsize.trans h.size
  zero hanon x hx hnot := (hbyte x hx hnot).trans (h.zero hanon x hx fun hw => hnot (hmore x hw))

lemma pmoStep_inv (hpages : EndlessPages getPage) {written : Nat → Prop}
    {st st' : PmoStore} {op : PmoOp}
    (h : PmoRunInv getPage kind bound written st) (hvalid : op.Valid)
    (hstep : pmoStep getPage st op = .ok st') :
    PmoRunInv getPage kind bound (fun x => written x ∨ op.Writes bound x) st' := by
  have hlt := h.ok.size
  have hbound := h.size
  cases op with
  | write user offset userPtr len =>
    have hok : StoreOk getPage { st with user } := ⟨h.ok.type, h.ok.size, h.ok.pages⟩
    by_cases hin : offset + len ≤ st.pmo.size
    · obtain ⟨st1, hcall, hok', htype', hsize', -, hbyte'⟩ :=
        sysWritePmo_spec hpages hok hin hvalid.2.2
      rw [pmoStep, hcall] at hstep
      cases hstep
      refine h.same (fun x => .inl) hok' htype' hsize' fun x hx hnot => ?_
      rw [hbyte' x (by omega), if_neg]
      · rfl
      intro hrange
      exact hnot (.inr ⟨hbound ▸ hin, hrange⟩)
    · have hout : { st with user : PmoStore }.pmo.size < offset + len := Nat.lt_of_not_le hin
      rw [pmoStep, sysWritePmo, readWritePmo_refused hvalid.2.1 hout] at hstep
      cases hstep
      exact h.same (fun x => .inl) hok rfl rfl fun _ _ _ => rfl
  | read user offset userPtr len =>
    have hok : StoreOk getPage { st with user } := ⟨h.ok.type, h.ok.size, h.ok.pages⟩
    by_cases hin : offset + len ≤ st.pmo.size
    · obtain ⟨st1, hcall, hok', htype', hsize', hbyte', -⟩ :=
        sysReadPmo_spec hpages hok hin hvalid.2.2
      rw [pmoStep, hcall] at hstep
      cases hstep
      exact h.same (fun x => .inl) hok' htype' hsize' fun x hx _ =>
        hbyte' x (by omega)
    have hout : { st with user : PmoStore }.pmo.size < offset + len := Nat.lt_of_not_le hin
    rw [pmoStep, sysReadPmo, readWritePmo_refused hvalid.2.1 hout] at hstep
    cases hstep
    exact h.same (fun x => .inl) hok rfl rfl fun _ _ _ => rfl
  | fault index =>
    by_cases htype : st.pmo.type ≠ .anonym ∧ st.pmo.type ≠ .shm
    · simp [pmoStep, htype] at hstep
    by_cases hout : index * pageSize ≥ st.pmo.size
    · simp [pmoStep, hout] at hstep
    have hindex : index < 2 ^ 64 := by
      unfold pageSize at hout
      omega
    obtain ⟨mem', pmo', pa, htouch, htouched⟩ := touchPage_spec hpages h.ok.pages (by tauto) hindex
    rw [pmoStep, if_neg htype, if_neg hout, htouch] at hstep
    cases hstep
    refine h.same (fun x => .inl) ⟨?_, ?_, htouched.pages⟩ htouched.type
      htouched.size fun x hx _ => htouched.bytes x (by omega)
    · exact htouched.type ▸ h.ok.type
    · exact htouched.size ▸ hlt

lemma pmoRun_inv (hpages : EndlessPages getPage) (ops : List PmoOp) :
    ∀ (written : Nat → Prop) (st st' : PmoStore),
    PmoRunInv getPage kind bound written st → (∀ op ∈ ops, op.Valid) →
    run (pmoStep getPage) st ops = .ok st' →
    PmoRunInv getPage kind bound (fun x => written x ∨ ∃ op ∈ ops, op.Writes bound x) st' := by
  induction ops with
  | nil =>
    intro written st st' h _ hrun
    cases hrun
    exact h.same (fun x => .inl) h.ok rfl rfl fun _ _ _ => rfl
  | cons op ops ih =>
    intro written st st' h hvalid hrun
    obtain ⟨st1, hstep, hrest⟩ := run_cons_inv hrun
    have hnext := pmoStep_inv hpages h (hvalid op (by simp)) hstep
    have hend := ih _ st1 st' hnext (fun o ho => hvalid o (by simp [ho])) hrest
    simpa only [List.mem_cons, exists_eq_or_imp, or_assoc] using hend

/-! ## The round trip -/

/-- A range of the object is written from one buffer, and read into another
one. -/
def RoundTrip (getPage : Nat → Option Nat) (st : PmoStore) (source : Mem)
    (sourcePtr : Nat) (target : Mem) (targetPtr offset len : Nat) : Prop :=
  ∃ st1 st2, sysWritePmo getPage { st with user := source } offset sourcePtr len = .ok (st1, 0) ∧
    sysReadPmo getPage { st1 with user := target } offset targetPtr len = .ok (st2, 0) ∧
    ∀ j, j < len → st2.user (targetPtr + j) = source (sourcePtr + j)

/-- The byte that `sys_read_pmo` delivers for an offset. -/
def readPmoByte (getPage : Nat → Option Nat) (st : PmoStore) (x : Nat) : Option UInt8 :=
  match sysReadPmo getPage st x 0 1 with
  | .ok (st', r) => if r = 0 then some (st'.user 0) else none
  | .error _ => none

lemma readPmoByte_eq (hpages : EndlessPages getPage) (h : StoreOk getPage st)
    (hx : x < st.pmo.size) : readPmoByte getPage st x = some (st.byte x) := by
  obtain ⟨st', hcall, -, -, -, -, -, hin⟩ :=
    sysReadPmo_spec hpages h (show x + 1 ≤ st.pmo.size by omega) (show 0 < kbase by decide)
  have hone : moved st.pmo.type x 1 = 1 := by
    rw [moved_eq_iff]
    exact .inr (mod_lt x (by decide))
  obtain ⟨y, hlo, hhi, -, huser⟩ := hin 0 (by omega)
  obtain rfl : y = x := by omega
  simp [readPmoByte, hcall, show st'.user 0 = st.byte y from huser]

lemma roundTrip_iff (hpages : EndlessPages getPage) (h : StoreOk getPage st)
    {sourcePtr targetPtr : Nat} (hin : offset + len ≤ st.pmo.size)
    (hsource : sourcePtr < kbase) (htarget : targetPtr < kbase) (source target : Mem) :
    RoundTrip getPage st source sourcePtr target targetPtr offset len ↔
    Straight st.pmo.type offset len ∨ ∀ j, reach offset len ≤ j → j < len →
    target (targetPtr + j) = source (sourcePtr + j) := by
  have hlt := h.size
  have hok : StoreOk getPage { st with user := source } := ⟨h.type, h.size, h.pages⟩
  obtain ⟨st1, hwrite, hok1, htype1, hsize1, -, hbyte1⟩ := sysWritePmo_spec hpages hok hin hsource
  have hok1' : StoreOk getPage { st1 with user := target } := ⟨hok1.type, hok1.size, hok1.pages⟩
  obtain ⟨st2, hread, -, -, -, -, hout2, hin2⟩ := sysReadPmo_spec hpages hok1'
      (show offset + len ≤ st1.pmo.size from hsize1 ▸ hin) htarget
  simp only [htype1] at hout2 hin2
  -- what is delivered at all is the byte of the same position
  have hsame : ∀ j, j < moved st.pmo.type offset len →
      st2.user (targetPtr + j) = source (sourcePtr + j) := by
    intro j hj
    obtain ⟨x, hlo, hhi, hpos, huser⟩ := hin2 j hj
    rw [huser]
    refine (hbyte1 x (by omega)).trans ?_
    rw [if_pos ⟨hlo, hhi⟩, hpos]
  have htrip : RoundTrip getPage st source sourcePtr target targetPtr offset len ↔ ∀ j, j < len →
        st2.user (targetPtr + j) = source (sourcePtr + j) := by
    constructor
    · rintro ⟨s1, s2, hw, hr, hall⟩
      obtain rfl : st1 = s1 := by simpa [hwrite] using hw
      obtain rfl : st2 = s2 := by simpa [hread] using hr
      exact hall
    · exact fun hall => ⟨st1, st2, hwrite, hread, hall⟩
  rw [htrip]
  constructor
  · intro hall
    by_cases hstraight : Straight st.pmo.type offset len
    · exact .inl hstraight
    refine .inr fun j hj hjlen => ?_
    have hreach : moved st.pmo.type offset len = reach offset len :=
      if_neg fun hdata => hstraight (.inl hdata)
    rw [← hall j hjlen, hout2 j (hreach ▸ hj)]
  · rintro hcond j hj
    by_cases hmoved : j < moved st.pmo.type offset len
    · exact hsame j hmoved
    have hnot : ¬ Straight st.pmo.type offset len := by
      rw [← moved_eq_iff]
      omega
    have hreach : moved st.pmo.type offset len = reach offset len :=
      if_neg fun hdata => hnot (.inl hdata)
    rw [hout2 j (Nat.le_of_not_lt hmoved)]
    exact (hcond.resolve_left hnot) j (by omega) hj

/-- **Writing and reading objects.** What was written is read back exactly when
the range is moved in one piece, unless the part of the target buffer that the
pieces do not reach happens to hold the bytes already. In any case the bytes
outside the range stay, and bytes that were never written are zero. -/
theorem pmo_round_trip_iff (hpages : EndlessPages getPage) {mem : PhysMem}
    {user : Mem} {type : PmoType} (htype : type = .data ∨ type = .anonym)
    {start size : Nat} (hsize : size < 2 ^ 64) (ops : List PmoOp)
    (hops : ∀ op ∈ ops, op.Valid) {st : PmoStore}
    (hrun : run (pmoStep getPage) (newPmoStore mem user type start size) ops = .ok st) :
    (∀ (source target : Mem) (sourcePtr targetPtr offset len : Nat),
      sourcePtr < kbase → targetPtr < kbase → offset + len ≤ size →
      (RoundTrip getPage st source sourcePtr target targetPtr offset len ↔
        Straight type offset len ∨ ∀ j, reach offset len ≤ j → j < len →
            target (targetPtr + j) = source (sourcePtr + j))) ∧
    (∀ (source : Mem) (sourcePtr offset len : Nat), sourcePtr < kbase → offset + len ≤ size →
      ∃ st', sysWritePmo getPage { st with user := source } offset sourcePtr len = .ok (st', 0) ∧
        ∀ x, x < size → x < offset ∨ offset + len ≤ x → ∃ v, readPmoByte getPage st x = some v ∧
            readPmoByte getPage st' x = some v) ∧
    (type = .anonym → ∀ x, x < size → (∀ op ∈ ops, ¬ op.Writes size x) →
      readPmoByte getPage st x = some 0) := by
  have hinv := pmoRun_inv hpages ops _ _ st (newPmoStore_inv htype hsize) hops hrun
  have hok := hinv.ok
  refine ⟨?_, ?_, ?_⟩
  · intro source target sourcePtr targetPtr offset len hsource htarget hin
    have hiff := roundTrip_iff hpages hok (hinv.size.symm ▸ hin) hsource htarget source target
    rwa [hinv.type] at hiff
  · intro source sourcePtr offset len hsource hin
    have hokSource : StoreOk getPage { st with user := source } := ⟨hok.type, hok.size, hok.pages⟩
    obtain ⟨st', hwrite, hok', -, hsize', -, hbyte'⟩ :=
      sysWritePmo_spec hpages hokSource (hinv.size.symm ▸ hin) hsource
    refine ⟨st', hwrite, fun x hx hout => ⟨st.byte x, ?_, ?_⟩⟩
    · exact readPmoByte_eq hpages hok (hinv.size.symm ▸ hx)
    · rw [readPmoByte_eq hpages hok' (hsize'.trans hinv.size ▸ hx),
        hbyte' x (by omega), if_neg (by omega)]
      rfl
  · intro hanon x hx hnot
    rw [readPmoByte_eq hpages hok (hinv.size.symm ▸ hx)]
    refine congrArg some (hinv.zero hanon x hx ?_)
    rintro (hfalse | ⟨op, hop, hwrites⟩)
    · exact hfalse
    · exact hnot op hop hwrites

end

/-- Physical pages in ascending order, without page 0. -/
def pagesFromOne (n : Nat) : Option Nat := some ((n + 1) * pageSize)

lemma endlessPages_fromOne : EndlessPages pagesFromOne where
  some n := ⟨_, rfl⟩
  aligned n pa h := by
    cases h
    exact Dvd.intro_left _ rfl
  nonzero n pa h := by
    cases h
    unfold pageSize
    omega
  distinct m n pa hm hn := by
    cases hm
    simp only [pagesFromOne, pageSize, Option.some.injEq] at hn
    omega

/-- An object of two pages, after its second page was written and read. -/
theorem pmo_round_trip_iff_two_pages : ∃ st, run (pmoStep pagesFromOne)
      (newPmoStore ⟨fun _ => 7, 0⟩ (fun _ => 0) .anonym 0 0x2000)
      [.write (fun a => a.toUInt8) 0x1ffe 1 2, .read (fun _ => 0) 0x1ffc 0 4] = .ok st ∧
    (∀ (source target : Mem) (sourcePtr targetPtr offset len : Nat),
      sourcePtr < kbase → targetPtr < kbase → offset + len ≤ 0x2000 →
      (RoundTrip pagesFromOne st source sourcePtr target targetPtr offset len ↔
        Straight .anonym offset len ∨ ∀ j, reach offset len ≤ j → j < len →
            target (targetPtr + j) = source (sourcePtr + j))) ∧
    readPmoByte pagesFromOne st 5 = some 0 := by
  refine exists_ok (by decide +kernel) fun st hrun => ?_
  have hall := pmo_round_trip_iff endlessPages_fromOne (.inr rfl) (by decide)
    _ (by simp [PmoOp.Valid, kbase]) hrun
  exact ⟨hall.1, hall.2.2 rfl 5 (by decide) (by simp [PmoOp.Writes])⟩

/-- Two bytes `1, 2` are written across the border of two pages of a new object.
Both pages get the byte `1`, and reading the two bytes delivers only the first
byte of the buffer. -/
theorem pmo_write_across_pages : (∃ st, run (pmoStep pagesFromOne)
      (newPmoStore ⟨fun _ => 0, 0⟩ (fun _ => 0) .anonym 0 0x2000)
      [.write (fun a => (a + 1).toUInt8) 0xfff 0 2, .read (fun _ => 0) 0xfff 0 2] = .ok st ∧
      st.byte 0xfff = 1 ∧ st.byte 0x1000 = 1 ∧ st.user 0 = 1 ∧
      st.user 1 = 0) ∧
    ¬ RoundTrip pagesFromOne (newPmoStore ⟨fun _ => 0, 0⟩ (fun _ => 0) .anonym 0 0x2000)
      (fun a => (a + 1).toUInt8) 0 (fun _ => 0) 0 0xfff 2 := by
  refine ⟨by decide +kernel, ?_⟩
  have hinv : PmoRunInv pagesFromOne .anonym 0x2000 (fun _ => False)
      (newPmoStore ⟨fun _ => 0, 0⟩ (fun _ => 0) .anonym 0 0x2000) :=
    newPmoStore_inv (.inr rfl) (by decide)
  rw [roundTrip_iff endlessPages_fromOne hinv.ok (by decide) (by decide) (by decide)]
  rintro (hstraight | hsame)
  · exact absurd hstraight (by decide)
  · exact absurd (hsame 1 (by decide) (by decide)) (by decide)

/-! ## Physical addresses -/

/-- `query_in_pgtbl` with the null pointer for the entry. `get_next_ptp` stores
the address of a valid entry through it, so the walk ends at the root. -/
def queryNoEntry (s : PtState) (pgtbl va : Nat) : Exec (Option Query) :=
  match (getNextPtp (fun _ => 0) s pgtbl 0 va false).2 with
  | .noMapping => .ok none
  | _ => .error .nullDeref

/-- Query the page table and deliver the address: the return value and what is
written. -/
def deliverAddr (deliver : Nat → Nat) (s : PtState) (pgtbl va : Nat) :
    Exec (Int × Option Nat) := do
  match ← queryNoEntry s pgtbl va with
  | none => return (-enomapping, none)
  | some q => return (0, q.pa.map deliver)

/-- `sys_get_phys_addr`. -/
def sysGetPhysAddr : PtState → Nat → Nat → Exec (Int × Option Nat) := deliverAddr id

/-- `trans_uva_to_kva`. -/
def transUvaToKva : PtState → Nat → Nat → Exec (Int × Option Nat) :=
  deliverAddr fun pa => u64 (pa + kbase)

/-- What a call returns and writes by the page table. -/
def answer (deliver : Nat → Nat) (s : PtState) (pgtbl va : Nat) : Int × Option Nat :=
  match queryInPgtbl s pgtbl va with
  | none => (-enomapping, none)
  | some q => (0, q.pa.map deliver)

lemma deliverAddr_iff (deliver : Nat → Nat) (s : PtState) (pgtbl va : Nat) :
    deliverAddr deliver s pgtbl va = .ok (answer deliver s pgtbl va) ↔
    isPteInvalid (s.mem pgtbl (ptpIndex 0 va)) = true := by
  by_cases hinvalid : isPteInvalid (s.mem pgtbl (ptpIndex 0 va)) = true
  · simp [deliverAddr, answer, queryInPgtbl, queryLoop, queryNoEntry, getNextPtp, hinvalid]
  have hfault : queryNoEntry s pgtbl va = .error .nullDeref := by
    unfold queryNoEntry getNextPtp nextOfEntry
    rw [if_neg hinvalid]
    split_ifs <;> rfl
  simp [deliverAddr, hfault, hinvalid]

/-- **The calls that ask for an address** answer as the page table does if and
only if the root has no entry for it. -/
theorem phys_addr_answers_iff (s : PtState) (pgtbl va : Nat) :
    (sysGetPhysAddr s pgtbl va = .ok (answer id s pgtbl va) ∧
      transUvaToKva s pgtbl va = .ok (answer (fun pa => u64 (pa + kbase)) s pgtbl va)) ↔
      isPteInvalid (s.mem pgtbl (ptpIndex 0 va)) = true :=
  (and_congr (deliverAddr_iff ..) (deliverAddr_iff ..)).trans and_self_iff

/-- A page is mapped, and the call does not deliver its address. -/
theorem phys_addr_of_page : ∃ s,
    mapRangeInPgtbl (· + 1) ⟨fun _ _ => 0, 0⟩ 0 0x3000 0x5000 0x1000 0 = .ok s ∧
      answer id s 0 0x3010 = (0, some 0x5010) ∧
      sysGetPhysAddr s 0 0x3010 = .error .nullDeref := by decide +kernel

end ChCore.Kernel
