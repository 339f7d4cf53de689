import ChCore.Lib.Buffers
import ChCore.Lib.Heaps
import ChCore.Lib.Runs
import ChCore.Userland.Tmpfs

/-!
# A file of tmpfs as a byte array

A regular file should behave as an array of bytes that grows. `tfs_file_write`
stores the right bytes, but the size it computes leaves the offset out: a write
that grows the file from an offset other than 0 makes it too short. And the test
of `tfs_file_read` for the end of the file wraps around for very long requests.
Apart from these two cases every call does what the array does.
-/

namespace ChCore.Userland

open Function List Option Nat

open Kernel (Exec u64 u64_of_lt u64_lt guard_eq_ok ok_bind pure_eq_ok bind_eq_ok)
open Lib.Buffers Lib.Heaps Lib.Runs

variable {a : List UInt8}

/-! ## Files and arrays -/

/-- The byte at position `i` of the file, if there is a page for it. -/
def TmpFile.byte (file : TmpFile) (i : Nat) : Option UInt8 :=
  (file.inode.data.slot (i / pageSize)).map fun page =>
    file.heap.page page (i % pageSize)

/-- The file has the size and the bytes of the array. -/
structure IsArray (file : TmpFile) (a : List UInt8) : Prop where
  type : file.inode.type = .reg
  size : file.inode.size = a.length
  bytes : ∀ i, i < a.length → file.byte i = a[i]?

/-- The pages of the file come from `calloc`, and no page is there twice. -/
structure PagesOk (file : TmpFile) : Prop where
  issued : ∀ key page, key < 2 ^ 64 → file.inode.data.slot key = some page →
    page ≠ 0 ∧ page ≤ file.heap.count
  single : ∀ key key' page, key < 2 ^ 64 → key' < 2 ^ 64 → file.inode.data.slot key = some page →
    file.inode.data.slot key' = some page → key = key'

section

variable {file : TmpFile}

lemma div_pageSize_lt {i : Nat} (hi : i < 2 ^ 64) : i / pageSize < 2 ^ 64 :=
  lt_of_le_of_lt (div_le_self _ _) hi

/-- What `pageForWrite` gives back. -/
structure PageReady (file file' : TmpFile) (pageNo page : Nat) : Prop where
  pages : PagesOk file'
  here : file'.inode.data.slot pageNo = some page
  nonzero : page ≠ 0
  type : file'.inode.type = file.inode.type
  size : file'.inode.size = file.inode.size
  bytes : ∀ i b, i < 2 ^ 64 → file.byte i = some b → file'.byte i = some b

variable {pageNo : Nat}

/-- A new page is added to the file. -/
lemma PagesOk.addPage (h : PagesOk file) (hno : pageNo < 2 ^ 64)
    (hslot : file.inode.data.slot pageNo = none) :
    PageReady file
      ⟨{ file.inode with
          data := radixAdd file.inode.data pageNo (file.heap.count + 1) },
        (callocPage file.heap).1⟩ pageNo (file.heap.count + 1) := by
  have hnew : ∀ key, key < 2 ^ 64 →
      (radixAdd file.inode.data pageNo (file.heap.count + 1)).slot key =
        if key = pageNo then some (file.heap.count + 1)
        else file.inode.data.slot key :=
    fun key hkey => radixAdd_slot _ hno hkey (succ_ne_zero _)
  -- a page that was there is not the new one
  have hold : ∀ key page, key < 2 ^ 64 → file.inode.data.slot key = some page →
      page ≠ file.heap.count + 1 := by
    intro key page hkey hpage
    have hle := (h.issued key page hkey hpage).2
    omega
  exact {
    pages :=
      { issued := by
          intro key page hkey hpage
          rcases bind_eq_some hnew hkey hpage with ⟨-, rfl⟩ | ⟨-, hpage⟩
          · exact ⟨succ_ne_zero _, le_rfl⟩
          obtain ⟨hne, hle⟩ := h.issued key page hkey hpage
          exact ⟨hne, le_succ_of_le hle⟩
        single := bind_single hnew
          (fun _ hkey hpage => absurd rfl (hold _ _ hkey hpage)) h.single }
    here := by rw [hnew pageNo hno, if_pos rfl]
    nonzero := succ_ne_zero _
    type := rfl
    size := rfl
    bytes := by
      intro i b hi hb
      obtain ⟨page, hpage, hbyte⟩ := map_eq_some_iff.1 hb
      have hkey := div_pageSize_lt hi
      have hne : i / pageSize ≠ pageNo := by
        intro heq
        rw [heq, hslot] at hpage
        cases hpage
      refine map_eq_some_iff.2 ⟨page, ?_, ?_⟩
      · rw [hnew _ hkey, if_neg hne, hpage]
      rw [← hbyte]
      simp only [callocPage]
      rw [update_of_ne (hold _ page hkey hpage)]
  }

/-- The page for a page number is found or made, and no byte changes. -/
lemma pageForWrite_spec (h : PagesOk file) (hno : pageNo < 2 ^ 64) :
    ∃ file' page, pageForWrite file pageNo = (file', page) ∧ PageReady file file' pageNo page := by
  have hget := radixGet_eq file.inode.data pageNo
  cases hslot : file.inode.data.slot pageNo with
  | some page =>
    have hnonzero := (h.issued pageNo page hno hslot).1
    rw [hslot, getD_some] at hget
    refine ⟨file, page, ?_, ⟨h, hslot, hnonzero, rfl, rfl, fun _ _ _ hb => hb⟩⟩
    simp only [pageForWrite, hget, if_neg hnonzero]
  | none =>
    rw [hslot, getD_none] at hget
    refine ⟨_, _, ?_, h.addPage hno hslot⟩
    simp only [pageForWrite, hget, if_true]
    rfl

/-- Bytes are written to a page. -/
lemma byte_memcpy (h : PagesOk file) {page : Nat} (hno : pageNo < 2 ^ 64)
    (hpage : file.inode.data.slot pageNo = some page) {heap : PageHeap} (new : Nat → UInt8)
    (hheap : heap.page = update file.heap.page page new) {i : Nat} (hi : i < 2 ^ 64) :
    TmpFile.byte { file with heap } i = if i / pageSize = pageNo then some (new (i % pageSize))
    else file.byte i := by
  have hkey := div_pageSize_lt hi
  unfold TmpFile.byte
  rw [hheap]
  by_cases heq : i / pageSize = pageNo
  · rw [if_pos heq, heq, hpage, map_some, update_self]
  rw [if_neg heq]
  cases hslot : file.inode.data.slot (i / pageSize) with
  | none => rfl
  | some page' =>
    have hne : page' ≠ page := by
      rintro rfl
      exact heq (h.single _ _ _ hkey hno hslot hpage)
    rw [map_some, map_some, update_of_ne hne]

end

/-! ## The loops -/

section

variable {curOff : Nat}

/-- The bytes of a round lie in one page. -/
lemma chunk_spec {size : Nat} (hsize : size ≠ 0) (hlt : curOff + size < 2 ^ 64) :
    0 < chunk (curOff % pageSize) size ∧ chunk (curOff % pageSize) size ≤ size ∧
    curOff % pageSize + chunk (curOff % pageSize) size ≤ pageSize := by
  have hmod : curOff % pageSize < pageSize := mod_lt _ (by decide)
  have hle := mod_le curOff pageSize
  rw [chunk, u64_of_lt (by omega)]
  by_cases hbig : curOff % pageSize + size > pageSize
  · rw [if_pos hbig]
    omega
  rw [if_neg hbig]
  omega

variable {offset : Nat}

lemma sub_offset (hle : offset ≤ curOff) (hlt : curOff < 2 ^ 64) :
    u64 (curOff + 2 ^ 64 - offset) = curOff - offset := by
  unfold u64
  omega

/-- What writing `n` bytes from `curOff` on does. -/
structure Written (file file' : TmpFile) (data : Nat → UInt8) (offset curOff n : Nat) : Prop where
  pages : PagesOk file'
  type : file'.inode.type = file.inode.type
  size : file'.inode.size = file.inode.size
  inside : ∀ i, curOff ≤ i → i < curOff + n → file'.byte i = some (data (i - offset))
  outside : ∀ i b, i < 2 ^ 64 → i < curOff ∨ curOff + n ≤ i →
    file.byte i = some b → file'.byte i = some b

variable {file : TmpFile}

/-- One round of the loop of `tfs_file_write`. -/
lemma writeRound_spec (h : PagesOk file) (data : Nat → UInt8) {n : Nat}
    (hle : offset ≤ curOff) (hlt : curOff + n < 2 ^ 64) (hn : curOff % pageSize + n ≤ pageSize) :
    ∃ file1 page heap, pageForWrite file (curOff / pageSize) = (file1, page) ∧
    memcpyToPage file1.heap page (curOff % pageSize)
    (fun i => data (u64 (curOff + 2 ^ 64 - offset) + i)) n = .ok heap ∧
    Written file { file1 with heap } data offset curOff n := by
  have hno : curOff / pageSize < 2 ^ 64 := div_pageSize_lt (by omega)
  obtain ⟨file1, page, hpage, hready⟩ := pageForWrite_spec h hno
  rw [sub_offset hle (by omega)]
  generalize hnew : (fun i =>
    if curOff % pageSize ≤ i ∧ i < curOff % pageSize + n then
      data (curOff - offset + (i - curOff % pageSize))
    else file1.heap.page page i) = new
  refine ⟨file1, page, { file1.heap with page := update file1.heap.page page new }, hpage, ?_, ?_⟩
  · simp only [memcpyToPage, checkPage, if_neg hready.nonzero,
      if_neg (not_lt.2 hn), ok_bind, pure_eq_ok, hnew]
  have hbyte : ∀ i, i < 2 ^ 64 → TmpFile.byte { file1 with
        heap := { file1.heap with
          page := update file1.heap.page page new } } i =
      if i / pageSize = curOff / pageSize then some (new (i % pageSize))
      else file1.byte i :=
    fun i hi => byte_memcpy hready.pages hno hready.here new rfl hi
  exact {
    pages := ⟨hready.pages.issued, hready.pages.single⟩
    type := hready.type
    size := hready.size
    inside := by
      intro i hlo hhi
      have hdiv : i / pageSize = curOff / pageSize := by
        unfold pageSize at *
        omega
      have hin : curOff % pageSize ≤ i % pageSize ∧ i % pageSize < curOff % pageSize + n := by
        unfold pageSize at *
        omega
      rw [hbyte i (by omega), if_pos hdiv, ← hnew]
      dsimp only
      rw [if_pos hin]
      congr 2
      unfold pageSize at *
      omega
    outside := by
      intro i b hi hout hb
      have hold := hready.bytes i b hi hb
      rw [hbyte i hi]
      by_cases hdiv : i / pageSize = curOff / pageSize
      · have hnot : ¬ (curOff % pageSize ≤ i % pageSize ∧
            i % pageSize < curOff % pageSize + n) := by
          unfold pageSize at *
          omega
        rw [if_pos hdiv, ← hnew]
        dsimp only
        rw [if_neg hnot, ← hold, TmpFile.byte, hdiv, hready.here, map_some]
      · rw [if_neg hdiv, hold]
  }

/-- Two writes, one behind the other. -/
lemma Written.trans {file1 file' : TmpFile} {data : Nat → UInt8} {n m : Nat}
    (h : Written file file1 data offset curOff n)
    (h' : Written file1 file' data offset (curOff + n) m) (hlt : curOff + n + m < 2 ^ 64) :
    Written file file' data offset curOff (n + m) where
  pages := h'.pages
  type := h'.type.trans h.type
  size := h'.size.trans h.size
  inside i hlo hhi := by
    by_cases hfirst : i < curOff + n
    · exact h'.outside i _ (by omega) (.inl hfirst) (h.inside i hlo hfirst)
    · exact h'.inside i (by omega) (by omega)
  outside i b hi hout hb := h'.outside i b hi (by omega) (h.outside i b hi (by omega) hb)

/-- The loop of `tfs_file_write`, by induction on the rounds. -/
lemma writeLoop_spec (data : Nat → UInt8) (offset rounds : Nat) :
    ∀ (file : TmpFile) (curOff size : Nat), PagesOk file → size ≤ rounds →
    offset ≤ curOff → curOff + size < 2 ^ 64 →
    ∃ file', writeLoop data offset rounds file curOff size = .ok (file', curOff + size) ∧
    Written file file' data offset curOff size := by
  have hnil : ∀ (file : TmpFile) (curOff : Nat), PagesOk file →
      Written file file data offset curOff 0 := by
    intro file curOff h
    exact ⟨h, rfl, rfl, fun i _ _ => by omega, fun _ _ _ _ hb => hb⟩
  induction rounds with
  | zero =>
    intro file curOff size h hrounds _ _
    obtain rfl : size = 0 := by omega
    exact ⟨file, rfl, hnil file curOff h⟩
  | succ rounds ih =>
    intro file curOff size h hrounds hle hlt
    by_cases hsize : size = 0
    · subst hsize
      exact ⟨file, rfl, hnil file curOff h⟩
    obtain ⟨hpos, hall, hfits⟩ := chunk_spec hsize hlt
    generalize hchunk : chunk (curOff % pageSize) size = n at *
    obtain ⟨file1, page, heap, hpage, hcopy, hwritten⟩ :=
      writeRound_spec h data hle (by omega) hfits
    obtain ⟨file', hrest, hwritten'⟩ := ih { file1 with heap } (curOff + n)
      (size - n) hwritten.pages (by omega) (by omega) (by omega)
    refine ⟨file', ?_, ?_⟩
    · rw [writeLoop, if_neg hsize]
      dsimp only
      rw [hchunk, hpage]
      dsimp only
      rw [hcopy, ok_bind, u64_of_lt (by omega), hrest]
      congr 2
      omega
    · have hsum := hwritten.trans hwritten' (by omega)
      rwa [show n + (size - n) = size by omega] at hsum

/-- The loop of `tfs_file_read` when all pages are there. -/
lemma readLoop_spec (h : PagesOk file) (bytes : Nat → UInt8) (offset rounds : Nat) :
    ∀ (buff : Nat → UInt8) (curOff size : Nat), size ≤ rounds →
    offset ≤ curOff → curOff + size < 2 ^ 64 →
    (∀ i, curOff ≤ i → i < curOff + size → file.byte i = some (bytes i)) →
    ∃ buff', readLoop file offset rounds buff curOff size = .ok (buff', curOff + size) ∧
    ∀ i, buff' i = if curOff - offset ≤ i ∧ i < curOff - offset + size then
    bytes (offset + i) else buff i := by
  induction rounds with
  | zero =>
    intro buff curOff size hrounds _ _ _
    obtain rfl : size = 0 := by omega
    refine ⟨buff, rfl, fun i => ?_⟩
    rw [if_neg (by omega)]
  | succ rounds ih =>
    intro buff curOff size hrounds hle hlt hbytes
    by_cases hsize : size = 0
    · subst hsize
      refine ⟨buff, rfl, fun i => ?_⟩
      rw [if_neg (by omega)]
    obtain ⟨hpos, hall, hfits⟩ := chunk_spec hsize hlt
    generalize hchunk : chunk (curOff % pageSize) size = n at *
    obtain ⟨page, hslot, -⟩ := map_eq_some_iff.1 (hbytes curOff le_rfl (by omega))
    have hno : curOff / pageSize < 2 ^ 64 := div_pageSize_lt (by omega)
    have hnonzero := (h.issued _ page hno hslot).1
    have hget : radixGet file.inode.data (curOff / pageSize) = page := by
      rw [radixGet_eq, hslot, getD_some]
    -- the bytes of this page are those of the file
    have hhere : ∀ j, j < n → file.heap.page page (curOff % pageSize + j) = bytes (curOff + j) := by
      intro j hj
      have hbyte := hbytes (curOff + j) (by omega) (by omega)
      have hdiv : (curOff + j) / pageSize = curOff / pageSize := by
        unfold pageSize at *
        omega
      have hmod : (curOff + j) % pageSize = curOff % pageSize + j := by
        unfold pageSize at *
        omega
      rw [TmpFile.byte, hdiv, hslot, map_some, Option.some.injEq, hmod] at hbyte
      exact hbyte
    obtain ⟨buff', hrest, hbuff'⟩ := ih (fun i =>
        if curOff - offset ≤ i ∧ i < curOff - offset + n then
          file.heap.page page (curOff % pageSize + (i - (curOff - offset)))
        else buff i) (curOff + n) (size - n) (by omega) (by omega) (by omega)
      fun i hlo hhi => hbytes i (by omega) (by omega)
    refine ⟨buff', ?_, fun i => ?_⟩
    · rw [readLoop, if_neg hsize]
      simp only [hchunk, hget, memcpyFromPage, checkPage, if_neg hnonzero,
        if_neg (not_lt.2 hfits), ok_bind, pure_eq_ok]
      rw [sub_offset hle (by omega), u64_of_lt (by omega), hrest]
      congr 2
      omega
    rw [hbuff' i]
    by_cases hrest : curOff + n - offset ≤ i ∧ i < curOff + n - offset + (size - n)
    · rw [if_pos hrest, if_pos (by omega)]
    rw [if_neg hrest]
    by_cases hin : curOff - offset ≤ i ∧ i < curOff - offset + n
    · rw [if_pos hin, if_pos (by omega), hhere _ (by omega)]
      congr 1
      omega
    · rw [if_neg hin, if_neg (by omega)]

end

/-! ## The calls -/

section

variable {file : TmpFile} {a : List UInt8}

lemma memcpyToPage_count {heap heap' : PageHeap} {page off n : Nat}
    {src : Nat → UInt8} (hrun : memcpyToPage heap page off src n = .ok heap') :
    heap'.count = heap.count := by
  obtain ⟨-, -, hheap⟩ := bind_eq_ok.1 hrun
  cases hheap
  rfl

/-- The loop of `tfs_file_write` adds pages to the file, and leaves the size as it
is. -/
lemma writeLoop_keeps (data : Nat → UInt8) (offset rounds : Nat) :
    ∀ (file file' : TmpFile) (curOff size curOff' : Nat),
    writeLoop data offset rounds file curOff size = .ok (file', curOff') →
    file.heap.count ≤ file'.heap.count ∧ file'.inode.size = file.inode.size := by
  induction rounds with
  | zero =>
    intro file file' curOff size curOff' hrun
    cases hrun
    exact ⟨le_rfl, rfl⟩
  | succ rounds ih =>
    intro file file' curOff size curOff' hrun
    rw [writeLoop] at hrun
    by_cases hsize : size = 0
    · rw [if_pos hsize] at hrun
      cases hrun
      exact ⟨le_rfl, rfl⟩
    rw [if_neg hsize] at hrun
    have hpage : file.heap.count ≤ (pageForWrite file (curOff / pageSize)).1.heap.count ∧
        (pageForWrite file (curOff / pageSize)).1.inode.size = file.inode.size := by
      unfold pageForWrite
      dsimp only
      split
      · exact ⟨le_succ _, rfl⟩
      · exact ⟨le_rfl, rfl⟩
    obtain ⟨heap, hcopy, hrest⟩ := bind_eq_ok.1 hrun
    have hcount := memcpyToPage_count hcopy
    obtain ⟨hheap, hsame⟩ := ih _ _ _ _ _ hrest
    exact ⟨(hcount ▸ hpage.1).trans hheap, hsame.trans hpage.2⟩

variable {offset : Nat} {data : List UInt8}

/-- Every call of `tfs_file_write` that can be made returns and stores its bytes,
whether or not the file had pages there before. -/
lemma tfsFileWrite_written (hpages : PagesOk file)
    (htype : file.inode.type = .reg) (hoffset : offset ≤ file.inode.size)
    (hlt : offset + data.length < 2 ^ 64) :
    ∃ file', tfsFileWrite file offset data = .ok (file', data.length) ∧
    PagesOk file' ∧ file'.inode.type = .reg ∧ file'.inode.size = max file.inode.size data.length ∧
    file.heap.count ≤ file'.heap.count ∧
    (∀ i, i < data.length → file'.byte (offset + i) = some (data.getD i 0)) ∧
    ∀ i b, i < 2 ^ 64 → i < offset ∨ offset + data.length ≤ i →
    file.byte i = some b → file'.byte i = some b := by
  obtain ⟨file1, hloop, hwritten⟩ := writeLoop_spec (fun i => data.getD i 0)
    offset data.length file offset data.length hpages le_rfl
    le_rfl hlt
  have hcount : u64 (offset + data.length + 2 ^ 64 - offset) = data.length := by
    rw [sub_offset (Nat.le_add_right _ _) hlt, Nat.add_sub_cancel_left]
  have hheap := (writeLoop_keeps _ _ _ _ _ _ _ _ hloop).1
  have hinside : ∀ i, i < data.length → file1.byte (offset + i) = some (data.getD i 0) := by
    intro i hi
    rw [hwritten.inside (offset + i) (Nat.le_add_right _ _) (by omega), Nat.add_sub_cancel_left]
  have hrun : tfsFileWrite file offset data = if data.length > file1.inode.size then
        .ok ({ file1 with inode := { file1.inode with size := data.length } }, data.length)
      else .ok (file1, data.length) := by
    rw [tfsFileWrite, if_neg (not_not.2 htype), if_neg (not_lt.2 hoffset), hloop, ok_bind]
    dsimp only
    rw [hcount]
    rfl
  have hsize := hwritten.size
  by_cases hgrow : data.length > file1.inode.size
  · rw [if_pos hgrow] at hrun
    refine ⟨_, hrun, ⟨hwritten.pages.issued, hwritten.pages.single⟩,
      hwritten.type.trans htype, ?_, hheap, hinside, hwritten.outside⟩
    show data.length = _
    omega
  rw [if_neg hgrow] at hrun
  refine ⟨file1, hrun, hwritten.pages, hwritten.type.trans htype, ?_, hheap,
    hinside, hwritten.outside⟩
  omega

/-- For a file that is an array these are the bytes of the array after it. -/
lemma tfsFileWrite_spec (hpages : PagesOk file) (harray : IsArray file a)
    (hoffset : offset ≤ a.length) (hlt : offset + data.length < 2 ^ 64) (ha : a.length < 2 ^ 64) :
    ∃ file', tfsFileWrite file offset data = .ok (file', data.length) ∧
    PagesOk file' ∧ file'.inode.type = .reg ∧ file'.inode.size = max a.length data.length ∧
    ∀ i, i < max a.length (offset + data.length) → file'.byte i = (splice a offset data)[i]? := by
  obtain ⟨file', hrun, hpages', htype, hsize, -, hinside, houtside⟩ :=
    tfsFileWrite_written hpages harray.type (harray.size ▸ hoffset) hlt
  rw [harray.size] at hsize
  refine ⟨file', hrun, hpages', htype, hsize, fun i hi => ?_⟩
  rw [getElem?_splice hoffset]
  by_cases hin : offset ≤ i ∧ i < offset + data.length
  · obtain ⟨k, rfl⟩ := Nat.exists_eq_add_of_le hin.1
    rw [if_pos hin, hinside k (by omega), Nat.add_sub_cancel_left,
      getD_eq_getElem?_getD, List.getElem?_eq_getElem (by omega),
      getD_some]
  rw [if_neg hin]
  have hlen : i < a.length := by omega
  have hold := harray.bytes i hlen
  rw [List.getElem?_eq_getElem hlen] at hold ⊢
  exact houtside i _ (by omega) (by omega) hold

variable {size : Nat}

/-- The number of bytes that `tfs_file_read` computes for a range that does not
wrap around. -/
lemma read_cut {fileSize : Nat} (hoffset : offset ≤ fileSize) (hlt : offset + size < 2 ^ 64)
    (hsize : fileSize < 2 ^ 64) :
    (if u64 (offset + size) > fileSize then u64 (fileSize + 2 ^ 64 - offset) else size) =
    min size (fileSize - offset) := by
  rw [u64_of_lt hlt, sub_offset hoffset hsize]
  by_cases hbig : offset + size > fileSize
  · rw [if_pos hbig]
    omega
  rw [if_neg hbig]
  omega

/-- Every call of `tfs_file_read` whose range does not wrap around delivers the
bytes of the file, if they have pages. -/
lemma tfsFileRead_delivered (hpages : PagesOk file)
    (htype : file.inode.type = .reg) (hoffset : offset ≤ file.inode.size)
    (hlt : offset + size < 2 ^ 64) (hsize : file.inode.size < 2 ^ 64) {bytes : Nat → UInt8}
    (hbytes : ∀ i, i < min size (file.inode.size - offset) →
    file.byte (offset + i) = some (bytes i)) (buff : Nat → UInt8) :
    ∃ buff', tfsFileRead file offset buff size = .ok (buff', min size (file.inode.size - offset)) ∧
    ∀ i, buff' i = if i < min size (file.inode.size - offset) then bytes i else buff i := by
  have hcut := read_cut hoffset hlt hsize
  generalize hn : min size (file.inode.size - offset) = n at *
  obtain ⟨buff', hloop, hbuff⟩ := readLoop_spec hpages
    (fun i => bytes (i - offset)) offset n buff offset n le_rfl
    le_rfl (by omega) (by
      intro i hlo hhi
      have hbyte := hbytes (i - offset) (by omega)
      rwa [Nat.add_sub_cancel' hlo] at hbyte)
  refine ⟨buff', ?_, fun i => ?_⟩
  · rw [tfsFileRead, if_neg (not_not.2 htype), if_neg (not_lt.2 hoffset)]
    rw [hcut]
    dsimp only
    rw [hloop, ok_bind]
    dsimp only
    rw [sub_offset (Nat.le_add_right _ _) (by omega), Nat.add_sub_cancel_left]
    rfl
  · rw [hbuff i, Nat.sub_self, zero_add, Nat.add_sub_cancel_left]
    by_cases hi : i < n
    · rw [if_pos ⟨zero_le _, hi⟩, if_pos hi]
    · rw [if_neg fun h => hi h.2, if_neg hi]

/-- For a file that is an array these are the bytes of the array. -/
lemma tfsFileRead_spec (hpages : PagesOk file) (harray : IsArray file a)
    (hoffset : offset ≤ a.length) (hlt : offset + size < 2 ^ 64)
    (ha : a.length < 2 ^ 64) (buff : Nat → UInt8) :
    ∃ buff', tfsFileRead file offset buff size = .ok (buff', min size (a.length - offset)) ∧
    ∀ i, buff' i = if i < min size (a.length - offset) then a.getD (offset + i) 0 else buff i := by
  have hbytes : ∀ i, i < min size (file.inode.size - offset) →
      file.byte (offset + i) = some (a.getD (offset + i) 0) := by
    intro i hi
    rw [harray.size] at hi
    rw [harray.bytes (offset + i) (by omega), getD_eq_getElem?_getD,
      List.getElem?_eq_getElem (by omega), getD_some]
  have hread := tfsFileRead_delivered hpages harray.type
    (harray.size ▸ hoffset) hlt (harray.size ▸ ha) hbytes buff
  rwa [harray.size] at hread

/-- `tfs_file_write` at `offset` does what the array does. -/
def WriteLaw (file : TmpFile) (a : List UInt8) (offset : Nat) (data : List UInt8) : Prop :=
  ∃ file', tfsFileWrite file offset data = .ok (file', data.length) ∧
    IsArray file' (splice a offset data)

/-- `tfs_file_read` at `offset` does what the array does, whatever is in the
buffer. -/
def ReadLaw (file : TmpFile) (a : List UInt8) (offset size : Nat) : Prop :=
  ∀ buff, ∃ buff', tfsFileRead file offset buff size = .ok (buff', min size (a.length - offset)) ∧
    ∀ i, buff' i = if i < min size (a.length - offset) then
      a.getD (offset + i) 0 else buff i

/-- A write at offset 0 or inside the file. -/
def WriteAllowed (a : List UInt8) (offset : Nat) (data : List UInt8) : Prop :=
  (offset = 0 ∨ offset + data.length ≤ a.length) ∧ offset + data.length < 2 ^ 64

/-- The size after a call is a machine word. -/
lemma tfsFileWrite_size {file' : TmpFile} {r : Nat} (hsize : file.inode.size < 2 ^ 64)
    (hrun : tfsFileWrite file offset data = .ok (file', r)) : file'.inode.size < 2 ^ 64 := by
  unfold tfsFileWrite at hrun
  obtain ⟨htype, hrun⟩ := guard_eq_ok hrun
  obtain ⟨hoffset, hrun⟩ := guard_eq_ok hrun
  obtain ⟨⟨file1, curOff⟩, hloop, hend⟩ := bind_eq_ok.1 hrun
  have hsame := (writeLoop_keeps _ _ _ _ _ _ _ _ hloop).2
  dsimp only at hend
  by_cases hgrow : u64 (curOff + 2 ^ 64 - offset) > file1.inode.size
  · rw [if_pos hgrow] at hend
    cases hend
    exact u64_lt _
  rw [if_neg hgrow] at hend
  cases hend
  rwa [hsame]

/-- **A write does what the array does** exactly at offset 0 or inside the
file. -/
theorem writeLaw_iff (hpages : PagesOk file) (harray : IsArray file a)
    (ha : a.length < 2 ^ 64) (hoffset : offset ≤ a.length) :
    WriteLaw file a offset data ↔ WriteAllowed a offset data := by
  constructor
  · rintro ⟨file', hrun, harray'⟩
    have hword := tfsFileWrite_size (harray.size ▸ ha) hrun
    rw [harray'.size, length_splice hoffset] at hword
    have hlt : offset + data.length < 2 ^ 64 := by omega
    obtain ⟨file1, hrun1, -, -, hsize, -⟩ := tfsFileWrite_spec hpages harray hoffset hlt ha
    rw [hrun] at hrun1
    cases hrun1
    rw [harray'.size, length_splice hoffset] at hsize
    refine ⟨?_, hlt⟩
    omega
  · rintro ⟨hplace, hlt⟩
    obtain ⟨file', hrun, -, htype, hsize, hbytes⟩ := tfsFileWrite_spec hpages harray hoffset hlt ha
    have hlen := @length_splice _ a data offset hoffset
    refine ⟨file', hrun, htype, ?_, ?_⟩
    · omega
    intro i hi
    exact hbytes i (hlen ▸ hi)

lemma chunk_le {pageOff : Nat} (hoff : pageOff < pageSize) (hsize : size ≠ 0) :
    0 < chunk pageOff size ∧ chunk pageOff size ≤ size := by
  unfold chunk u64 pageSize at *
  by_cases hbig : (pageOff + size) % 2 ^ 64 > 0x1000
  · rw [if_pos hbig]
    have hle := mod_le (pageOff + size) (2 ^ 64)
    omega
  · rw [if_neg hbig]
    omega

/-- A call of the loop that returns has moved all bytes. -/
lemma readLoop_count (file : TmpFile) (offset rounds : Nat) :
    ∀ (buff buff' : Nat → UInt8) (curOff size curOff' : Nat), size ≤ rounds → curOff < 2 ^ 64 →
    readLoop file offset rounds buff curOff size = .ok (buff', curOff') →
    curOff' = u64 (curOff + size) := by
  induction rounds with
  | zero =>
    intro buff buff' curOff size curOff' hrounds hlt hrun
    cases hrun
    obtain rfl : size = 0 := by omega
    exact (u64_of_lt hlt).symm
  | succ rounds ih =>
    intro buff buff' curOff size curOff' hrounds hlt hrun
    rw [readLoop] at hrun
    by_cases hsize : size = 0
    · rw [if_pos hsize] at hrun
      cases hrun
      rw [hsize]
      exact (u64_of_lt hlt).symm
    rw [if_neg hsize] at hrun
    obtain ⟨buff1, -, hrest⟩ := bind_eq_ok.1 hrun
    obtain ⟨hpos, hle⟩ := chunk_le (mod_lt curOff (show 0 < pageSize by decide)) hsize
    rw [ih _ _ _ _ _ (by omega) (u64_lt _) hrest]
    unfold u64
    omega

/-- A call of `tfs_file_read` that returns has delivered what there is. -/
lemma tfsFileRead_count {buff buff' : Nat → UInt8} {n : Nat}
    (hsize : file.inode.size < 2 ^ 64) (hlt : offset + size < 2 ^ 64)
    (hrun : tfsFileRead file offset buff size = .ok (buff', n)) :
    n = min size (file.inode.size - offset) := by
  unfold tfsFileRead at hrun
  split at hrun
  · cases hrun
  split at hrun
  · cases hrun
  rename_i hoffset
  rw [read_cut (not_lt.1 hoffset) hlt hsize] at hrun
  obtain ⟨⟨buff1, curOff⟩, hloop, hdone⟩ := bind_eq_ok.1 hrun
  have hcount := readLoop_count file offset _ _ _ _ _ _ le_rfl (by omega) hloop
  have hret : u64 (curOff + 2 ^ 64 - offset) = n := congrArg Prod.snd (Except.ok.inj hdone)
  have hend : u64 (offset + min size (file.inode.size - offset)) =
      offset + min size (file.inode.size - offset) := u64_of_lt (by omega)
  rw [← hret, hcount, hend, sub_offset (le_add_right _ _) (by omega), Nat.add_sub_cancel_left]

/-- **A read does what the array does** exactly if its range does not wrap
around. -/
theorem readLaw_iff (hpages : PagesOk file) (harray : IsArray file a)
    (ha : a.length < 2 ^ 64) (hoffset : offset ≤ a.length) (hsize : size < 2 ^ 64) :
    ReadLaw file a offset size ↔ offset + size < 2 ^ 64 := by
  constructor
  · intro hlaw
    by_contra hwrap
    obtain ⟨buff', hrun, -⟩ := hlaw fun _ => 0
    have hsmall : ¬ u64 (offset + size) > a.length := by
      unfold u64
      omega
    rw [tfsFileRead, if_neg (not_not.2 harray.type), harray.size,
      if_neg (not_lt.2 hoffset), if_neg hsmall] at hrun
    obtain ⟨⟨buff1, curOff⟩, hloop, hend⟩ := bind_eq_ok.1 hrun
    have hcount := readLoop_count file offset size _ _ _ _ _ le_rfl (by omega) hloop
    have hret : u64 (curOff + 2 ^ 64 - offset) = min size (a.length - offset) :=
      congrArg Prod.snd (Except.ok.inj hend)
    rw [hcount] at hret
    unfold u64 at hret
    omega
  · intro hlt buff
    exact tfsFileRead_spec hpages harray hoffset hlt ha buff

end

/-! ## Sequences of calls -/

inductive FileOp
  | write (offset : Nat) (data : List UInt8)
  | read (offset size : Nat)
  deriving DecidableEq, Repr

/-- A call; what a read delivers is not part of the state. -/
def fileStep (file : TmpFile) : FileOp → Exec TmpFile
  | .write offset data => do
    let (file, _) ← tfsFileWrite file offset data
    return file
  | .read offset size => do
    let _ ← tfsFileRead file offset (fun _ => 0) size
    return file

/-- The same call on the array. -/
def arrayStep (a : List UInt8) : FileOp → Exec (List UInt8)
  | .write offset data => .ok (splice a offset data)
  | .read _ _ => .ok a

/-- The offset is at most the size that the file should have, writes are at
offset 0 or inside the file, and ranges end below `2 ^ 64`. -/
def FileAllowed (a : List UInt8) : FileOp → Prop
  | .write offset data => offset ≤ a.length ∧ WriteAllowed a offset data
  | .read offset size => offset ≤ a.length ∧ offset + size < 2 ^ 64

instance (a : List UInt8) : DecidablePred (FileAllowed a)
  | .write _ _ => inferInstanceAs (Decidable (_ ∧ (_ ∨ _) ∧ _))
  | .read _ _ => inferInstanceAs (Decidable (_ ∧ _))

/-- The invariant of a sequence of calls. -/
structure FileRefines (file : TmpFile) (a : List UInt8) : Prop where
  pages : PagesOk file
  array : IsArray file a
  word : a.length < 2 ^ 64

lemma FileRefines.init : FileRefines newReg [] where
  pages :=
    { issued := by
        intro key page _ hslot
        rw [show newReg.inode.data = initRadix from rfl, initRadix_slot] at hslot
        cases hslot
      single := by
        intro key key' page _ _ hslot
        rw [show newReg.inode.data = initRadix from rfl, initRadix_slot] at hslot
        cases hslot }
  array := ⟨rfl, rfl, fun i hi => absurd hi (not_lt_zero i)⟩
  word := by decide

lemma FileRefines.step {file : TmpFile} {op : FileOp} (h : FileRefines file a)
    (hall : FileAllowed a op) :
    ∃ file' a', fileStep file op = .ok file' ∧ arrayStep a op = .ok a' ∧ FileRefines file' a' := by
  cases op with
  | write offset data =>
    obtain ⟨hoffset, hplace⟩ := hall
    obtain ⟨file', hrun, harray'⟩ := (writeLaw_iff h.pages h.array h.word hoffset).2 hplace
    obtain ⟨file1, hrun1, hpages, -⟩ := tfsFileWrite_spec h.pages h.array hoffset hplace.2 h.word
    rw [hrun] at hrun1
    cases hrun1
    refine ⟨file', splice a offset data, ?_, rfl, ⟨hpages, harray', ?_⟩⟩
    · simp only [fileStep, hrun, ok_bind, pure_eq_ok]
    have hword := h.word
    have hlt := hplace.2
    rw [length_splice hoffset]
    omega
  | read offset size =>
    obtain ⟨hoffset, hlt⟩ := hall
    obtain ⟨buff', hrun, -⟩ := tfsFileRead_spec h.pages h.array hoffset hlt h.word fun _ => 0
    refine ⟨file, a, ?_, rfl, h⟩
    simp only [fileStep, hrun, ok_bind, pure_eq_ok]

/-- **A file is a byte array.** Every sequence of calls that write at offset 0
or inside the file, and whose ranges end below `2 ^ 64`, runs to its end, and
then the file has the size and the bytes of the array. The next call does what
the array does if and only if it is such a call. -/
theorem tmpfs_file_array (ops : List FileOp) (hadm : Admissible arrayStep FileAllowed [] ops) :
    ∃ file a, run fileStep newReg ops = .ok file ∧ run arrayStep [] ops = .ok a ∧ IsArray file a ∧
      (∀ offset data, offset ≤ a.length → data.length < 2 ^ 64 → (WriteLaw file a offset data ↔
          (offset = 0 ∨ offset + data.length ≤ a.length) ∧ offset + data.length < 2 ^ 64)) ∧
      ∀ offset size, offset ≤ a.length → size < 2 ^ 64 →
        (ReadLaw file a offset size ↔ offset + size < 2 ^ 64) := by
  have hstep : ∀ file a op, FileRefines file a → FileAllowed a op →
      ∃ file' a', fileStep file op = .ok file' ∧ arrayStep a op = .ok a' ∧ FileRefines file' a' :=
    fun file a op h hall => h.step hall
  obtain ⟨file, a, hrun, harrayRun, h⟩ := run_simulates hstep ops newReg [] .init hadm
  refine ⟨file, a, hrun, harrayRun, h.array, ?_, ?_⟩
  · intro offset data hoffset _
    exact writeLaw_iff h.pages h.array h.word hoffset
  · intro offset size hoffset hsize
    exact readLaw_iff h.pages h.array h.word hoffset hsize

/-- Three bytes are written, one of them is replaced, and two are read. -/
def threeBytes : List FileOp := [.write 0 [1, 2, 3], .write 1 [7], .read 1 2]

theorem tmpfs_file_array_three_bytes : ∃ file a, run fileStep newReg threeBytes = .ok file ∧
      run arrayStep [] threeBytes = .ok a ∧ IsArray file a := by
  obtain ⟨file, a, hrun, harrayRun, harray, -⟩ := tmpfs_file_array threeBytes (by decide)
  exact ⟨file, a, hrun, harrayRun, harray⟩

/-- Two bytes at offset 0 and two at offset 2 make a file of size 2, and then
every call at offset 4 halts. -/
theorem tmpfs_append_keeps_size : ∃ file,
    run fileStep newReg [.write 0 [1, 2], .write 2 [3, 4]] = .ok file ∧
    run arrayStep [] [.write 0 [1, 2], .write 2 [3, 4]] = .ok [1, 2, 3, 4] ∧
    file.inode.size = 2 ∧
    (∀ data, tfsFileWrite file 4 data = .error .bug) ∧
    ∀ buff size, tfsFileRead file 4 buff size = .error .bug := by
  refine exists_ok_imp (p := fun file => file.inode.type = .reg ∧ file.inode.size = 2)
    (by decide +kernel) ?_
  rintro file - ⟨htype, hsize⟩
  have hbeyond : 4 > file.inode.size := by omega
  refine ⟨by decide, hsize, fun data => ?_, fun buff size => ?_⟩
  · rw [tfsFileWrite, if_neg (not_not.2 htype), if_pos hbeyond]
  · rw [tfsFileRead, if_neg (not_not.2 htype), if_pos hbeyond]

end ChCore.Userland
