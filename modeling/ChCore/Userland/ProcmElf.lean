import ChCore.Kernel.Elf

/-!
# The ELF parser of the process manager

The process manager parses images with a parser of its own. It and the parser
of the kernel return what the format says, so they agree on every image. Both
store 64-bit headers in arrays of the size that the image claims for its own
(`elf_arrays_hold_iff`).
-/

namespace ChCore.Userland

open Kernel

/-- `be16toh`. -/
def be16toh (x : Nat) : Nat := ((x &&& 0xff) <<< 8) ||| ((x >>> 8) &&& 0xff)

/-- `be32toh`. -/
def be32toh (x : Nat) : Nat := (be16toh x <<< 16) ||| be16toh (x >>> 16)

/-- `be64toh`. -/
def be64toh (x : Nat) : Nat := (be32toh x <<< 32) ||| be32toh (x >>> 32)

/-- The macros of `endian_arch.h`. -/
def endianArch : Endianness where
  le := ⟨fun x => x, fun x => x, fun x => x⟩
  be := ⟨be16toh, be32toh, be64toh⟩

/-- `elf_parse_file` of the process manager. -/
def elfParseFile (malloc : Nat → Option Nat) (code : List UInt8) : Exec (Except Int ElfFile) :=
  parseFile endianArch malloc code

/-- The byte order that a code stands for. -/
def elfMsb (code : List UInt8) : Option Bool := if code.getD 5 0 = 1 then some false
  else if code.getD 5 0 = 2 then some true
  else none

lemma endianness_decodes {code : List UInt8} {msb : Bool} (h : elfMsb code = some msb) :
    ∃ cv, elfEndian endianness code = some cv ∧ cv.Decodes msb := by
  unfold elfMsb at h
  split_ifs at h with h1 h2 <;> cases h
  · exact ⟨_, if_pos h1, ToCpu.decodes_id⟩
  · exact ⟨_, (if_neg h1).trans (if_pos h2), ToCpu.decodes_be⟩

/-- The two sets of macros have other names and the same bodies. -/
lemma endianArch_eq : endianArch = endianness := rfl

lemma elfEndian_eq_none {e : Endianness} {code : List UInt8}
    (h : elfMsb code = none) : elfEndian e code = none := by
  unfold elfMsb at h
  split_ifs at h with h1 h2
  exact (if_neg h1).trans (if_neg h2)

/-- **Both parsers follow the ELF format.** On every image with a magic number,
a known class and byte order and tables that are there, both return the fields
at the places of the format; both reject every other class and byte order. -/
theorem elf_parsers_follow_format (kmalloc malloc : Nat → Option Nat)
    (code : List UInt8) (hmagic : code.take 4 = elfMagic) :
    (∀ bits msb, elfBits code = some bits → elfMsb code = some msb →
      TablesPresent code bits (formatHeader code msb bits) →
      ArraysFit kmalloc (formatHeader code msb bits) →
      ArraysFit malloc (formatHeader code msb bits) →
      Kernel.elfParseFile kmalloc code = .ok (.ok (formatFile code msb bits)) ∧
        elfParseFile malloc code = .ok (.ok (formatFile code msb bits))) ∧
    (elfBits code = none ∨ elfMsb code = none → 24 ≤ code.length →
      (kmalloc 80).isSome → (malloc 80).isSome →
      Kernel.elfParseFile kmalloc code = .ok (.error (-einval)) ∧
        elfParseFile malloc code = .ok (.error (-einval))) := by
  constructor
  · intro bits msb hbits hmsb hin hkfit hfit
    obtain ⟨cv, hend, hcv⟩ := endianness_decodes hmsb
    exact ⟨parseFile_eq hmagic hbits hend hcv hin hkfit,
      parseFile_eq hmagic hbits (endianArch_eq ▸ hend) hcv hin hfit⟩
  · intro hcode h24 hkelf helf
    have hnone (e : Endianness) : elfEndian e code = none ∨ elfBits code = none :=
      hcode.symm.imp_left elfEndian_eq_none
    exact ⟨parseFile_rejects hkelf hmagic h24 (hnone _),
      parseFile_rejects helf hmagic h24 (hnone _)⟩

/-- A big-endian 32-bit image with one program header. -/
def bigEndianImage : List UInt8 := elfMagic ++ [1, 2, 1, 0, 0, 0, 0, 0, 0, 0, 0, 0] ++
    [0, 2, 0, 8, 0, 0, 0, 1, 0, 0x40, 1, 0, 0, 0, 0, 52, 0, 0, 0, 0] ++
    [0, 0, 0, 0, 0, 52, 0, 64, 0, 1, 0, 0, 0, 0, 0, 0] ++
    [0, 0, 0, 1, 0, 0, 0, 0, 0, 0x40, 0, 0, 0, 0x40, 0, 0] ++
    [0, 0, 0, 84, 0, 0, 1, 0, 0, 0, 0, 5, 0, 0, 0x10, 0]

theorem elf_parsers_follow_format_big_endian : Kernel.elfParseFile some bigEndianImage =
        .ok (.ok (formatFile bigEndianImage true .bits32)) ∧
      elfParseFile some bigEndianImage = .ok (.ok (formatFile bigEndianImage true .bits32)) := by
  have hnum : (formatHeader bigEndianImage true .bits32).ePhnum = 1 := by decide
  have hnone : (formatHeader bigEndianImage true .bits32).eShnum = 0 := by decide
  have hfit : ArraysFit some (formatHeader bigEndianImage true .bits32) :=
    ⟨rfl, ⟨_, rfl, by decide⟩, ⟨_, rfl, by decide⟩⟩
  refine (elf_parsers_follow_format some some bigEndianImage (by decide)).1
    .bits32 true (by decide) (by decide) ⟨by decide, by decide, by decide,
      by decide, fun i hi => ?_, fun i hi => ?_⟩ hfit hfit
  · obtain rfl : i = 0 := by omega
    decide
  · omega

/-! ## The size of the arrays -/

section

variable {e : Endianness} {code : List UInt8} {bits : ElfBits} {h : ElfHeader}

/-- Every entry of the two tables is in the image. -/
def TablesIn (code : List UInt8) (bits : ElfBits) (h : ElfHeader) : Prop :=
  (∀ i < h.ePhnum, u64 (h.ePhoff + intMul h.ePhentsize i) + programHeaderSize bits ≤ code.length) ∧
  ∀ i < h.eShnum, u64 (h.eShoff + intMul h.eShentsize i) + sectionHeaderSize bits ≤ code.length

/-- The entries of a table in the image are at least as large as the 64-bit structures in
memory, or there are none. -/
def EntriesWide (h : ElfHeader) : Prop :=
  (h.ePhnum = 0 ∨ 56 ≤ h.ePhentsize) ∧ (h.eShnum = 0 ∨ 64 ≤ h.eShentsize)

/-- What `parse_elf_header` accepts. -/
lemma parseElfHeader_accepts (hheader : parseElfHeader e code = .ok (.ok h)) :
    ∃ cv bits, elfEndian e code = some cv ∧ elfBits code = some bits ∧
    headerSize bits ≤ code.length ∧ h = readHeader cv code bits := by
  obtain ⟨magic, -, hrest⟩ := bind_eq_ok.1 hheader
  cases magic with
  | false => cases hrest
  | true =>
    obtain ⟨-, -, hrest⟩ := bind_eq_ok.1 hrest
    cases hend : elfEndian e code with
    | none =>
      rw [hend] at hrest
      cases hrest
    | some cv =>
      rw [hend] at hrest
      obtain ⟨-, -, hrest⟩ := bind_eq_ok.1 hrest
      cases hbits : elfBits code with
      | none =>
        rw [hbits] at hrest
        cases hrest
      | some bits =>
        rw [hbits] at hrest
        obtain ⟨⟨⟩, hpresent, hrest⟩ := bind_eq_ok.1 hrest
        cases hrest
        unfold present at hpresent
        split at hpresent
        · exact ⟨cv, bits, rfl, rfl, by omega, rfl⟩
        · cases hpresent

/-- The numbers of headers are 16-bit members of the header of the image. -/
lemma readHeader_nums {cv : ToCpu} {msb : Bool} (hcv : cv.Decodes msb)
    (hlen : headerSize bits ≤ code.length) :
    (readHeader cv code bits).ePhnum < 2 ^ 16 ∧ (readHeader cv code bits).eShnum < 2 ^ 16 := by
  have hfield : ∀ off, off + 2 ≤ code.length → elfField code msb off 2 < 2 ^ 16 := by
    intro off hoff
    have hsize := length_bytesAt hoff
    unfold elfField
    split
    · have hlt := leValue_lt (bytesAt code off 2).reverse
      rwa [List.length_reverse, hsize] at hlt
    · have hlt := leValue_lt (bytesAt code off 2)
      rwa [hsize] at hlt
  rw [readHeader_eq hcv hlen]
  cases bits with
  | bits32 =>
    rw [headerSize] at hlen
    exact ⟨hfield 44 (by omega), hfield 48 (by omega)⟩
  | bits64 =>
    rw [headerSize] at hlen
    exact ⟨hfield 56 (by omega), hfield 60 (by omega)⟩

lemma intMul_holds_iff {entry num : Nat} (size : Nat) (hsize : size ≤ 64) (hnum : num < 2 ^ 16) :
    num * size ≤ intMul entry num ↔ num = 0 ∨ size ≤ entry := by
  have hle : entry * num ≤ intMul entry num := by
    unfold intMul
    split_ifs <;> omega
  constructor
  · intro hroom
    by_contra hno
    obtain ⟨hpos, hlt⟩ := not_or.1 hno
    have hmul : entry * num < num * size := by
      rw [Nat.mul_comm]
      exact Nat.mul_lt_mul_of_pos_left (by omega) (by omega)
    have hbound : num * size ≤ num * 64 := Nat.mul_le_mul_left num hsize
    rw [intMul, if_pos (by omega)] at hroom
    omega
  · rintro (rfl | hle')
    · omega
    · exact (Nat.mul_comm num size ▸ Nat.mul_le_mul_right num hle').trans hle

/-- A loop over a table stops at the first entry that is not in the image or has no room. -/
lemma parseTable_stops {α : Type} {cap size : Nat} {parse : Nat → Exec (Except Int α)} {f : Nat → α}
    {In : Nat → Prop} [DecidablePred In]
    (hparse : ∀ j, parse j = if In j then .ok (.ok (f j)) else .error .outOfBounds) (n : Nat) :
    ∀ i, (∃ j, i ≤ j ∧ j < i + n ∧ (cap < (j + 1) * size ∨ ¬ In j)) →
    parseTable cap size parse i n = .error .outOfBounds := by
  induction n with
  | zero =>
    rintro i ⟨j, hij, hj, -⟩
    omega
  | succ n ih =>
    rintro i ⟨j, hij, hj, hbad⟩
    rw [parseTable]
    by_cases hcap : cap < (i + 1) * size
    · rw [if_pos hcap]
      rfl
    rw [if_neg hcap, hparse]
    by_cases hin : In i
    · have hne : i ≠ j := by
        rintro rfl
        exact hbad.elim hcap fun hnot => hnot hin
      rw [if_pos hin]
      simp only [ok_bind, pure_eq_ok, ih (i + 1) ⟨j, by omega, by omega, hbad⟩]
      rfl
    · rw [if_neg hin]
      rfl

/-- A loop over a table ends if and only if every entry is in the image and the array has
room for all. -/
lemma parseTable_cases {α : Type} (cap size n : Nat) {parse : Nat → Exec (Except Int α)}
    {f : Nat → α} {In : Nat → Prop} [DecidablePred In]
    (hparse : ∀ j, parse j = if In j then .ok (.ok (f j)) else .error .outOfBounds) :
    ((∀ i < n, In i) ∧ n * size ≤ cap ∧ ∃ rest, parseTable cap size parse 0 n = .ok (.ok rest)) ∨
    ¬ ((∀ i < n, In i) ∧ n * size ≤ cap) ∧ parseTable cap size parse 0 n = .error .outOfBounds := by
  by_cases hall : (∀ i < n, In i) ∧ n * size ≤ cap
  · refine .inl ⟨hall.1, hall.2, _, parseTable_eq (f := f) n 0 (by rw [zero_add]; exact hall.2) ?_⟩
    intro j _ hj
    rw [hparse, if_pos (hall.1 j (by omega))]
  refine .inr ⟨hall, parseTable_stops hparse n 0 ?_⟩
  rcases Classical.not_and_iff_not_or_not.1 hall with hout | hroom
  · obtain ⟨j, hj⟩ := not_forall.1 hout
    obtain ⟨hlt, hj⟩ := Classical.not_imp.1 hj
    exact ⟨j, Nat.zero_le j, by omega, .inr hj⟩
  · -- the last entry has no room
    cases n with
    | zero => omega
    | succ n => exact ⟨n, Nat.zero_le n, by omega, .inl (Nat.not_le.1 hroom)⟩

/-- The parser accesses something out of bounds if and only if an entry is not in the image
or an array is too small. -/
lemma parseFile_stops_iff (hend : ∀ {cv}, elfEndian e code = some cv → ∃ msb, cv.Decodes msb)
    (hbits : elfBits code = some bits) (hheader : parseElfHeader e code = .ok (.ok h)) :
    parseFile e some code = .error .outOfBounds ↔ ¬ (TablesIn code bits h ∧ EntriesWide h) := by
  obtain ⟨cv, bits', hcv, hbits', hlen, rfl⟩ := parseElfHeader_accepts hheader
  obtain rfl : bits = bits' := Option.some.inj (hbits.symm.trans hbits')
  obtain ⟨msb, hdec⟩ := hend hcv
  obtain ⟨hpnum, hsnum⟩ := readHeader_nums hdec hlen
  have hindent : (readHeader cv code bits).eIndent = code.take 16 := by cases bits <;> rfl
  generalize readHeader cv code bits = h at *
  have hentry : ∀ {α : Type} (size : ElfBits → Nat)
      (read : ToCpu → List UInt8 → Nat → ElfBits → α) (off : Nat), parseEntry e size read code off h =
      if off + size bits ≤ code.length then .ok (.ok (read cv code off bits))
      else .error .outOfBounds := by
    intro α size read off
    unfold parseEntry
    rw [hindent, elfEndian, elfBits, getD_take (by decide), getD_take (by decide)]
    rw [elfEndian] at hcv
    rw [elfBits] at hbits
    rw [hcv, hbits]
    dsimp only
    unfold present
    split <;> rfl
  unfold TablesIn EntriesWide
  rw [← intMul_holds_iff 56 (by decide) hpnum, ← intMul_holds_iff 64 (by decide) hsnum]
  simp only [parseFile, hheader, ok_bind]
  rcases parseTable_cases (intMul h.ePhentsize h.ePhnum) 56 h.ePhnum
    (fun i => hentry programHeaderSize readProgramHeader (u64 (h.ePhoff + intMul h.ePhentsize i)))
    with ⟨hin, hroom, rest, hrun⟩ | ⟨hnot, hrun⟩
  · unfold parseElfProgramHeader
    rw [hrun, ok_bind]
    dsimp only
    rcases parseTable_cases (intMul h.eShentsize h.eShnum) 64 h.eShnum
      (fun i => hentry sectionHeaderSize readSectionHeader (u64 (h.eShoff + intMul h.eShentsize i)))
      with ⟨hin', hroom', rest', hrun'⟩ | ⟨hnot, hrun'⟩
    · unfold parseElfSectionHeader
      rw [hrun', ok_bind]
      exact iff_of_false (by simp [pure_eq_ok]) (not_not.2 ⟨⟨hin, hin'⟩, hroom, hroom'⟩)
    · unfold parseElfSectionHeader
      rw [hrun']
      exact iff_of_true rfl fun hall => hnot ⟨hall.1.2, hall.2.2⟩
  · unfold parseElfProgramHeader
    rw [hrun]
    exact iff_of_true rfl fun hall => hnot ⟨hall.1.1, hall.2.1⟩

end

/-- **The arrays for the headers.** Take an image of any class that `parse_elf_header` accepts,
with any numbers and sizes of entries, and an allocator that gives what it is asked for. Both
parsers access memory out of bounds if and only if an entry of a table is not in the image, or
the entries are smaller than the 64-bit structures that are stored for them. -/
theorem elf_arrays_hold_iff {code : List UInt8} {bits : ElfBits} {h : ElfHeader}
    (hbits : elfBits code = some bits) (hheader : parseElfHeader endianness code = .ok (.ok h)) :
    (Kernel.elfParseFile some code = .error .outOfBounds ↔
      ¬ (TablesIn code bits h ∧ EntriesWide h)) ∧
    (elfParseFile some code = .error .outOfBounds ↔ ¬ (TablesIn code bits h ∧ EntriesWide h)) := by
  have hend : ∀ {cv}, elfEndian endianness code = some cv → ∃ msb, cv.Decodes msb := by
    intro cv hcv
    cases hmsb : elfMsb code with
    | none =>
      rw [elfEndian_eq_none hmsb] at hcv
      cases hcv
    | some msb =>
      obtain ⟨cv', hcv', hdec⟩ := endianness_decodes hmsb
      rw [hcv] at hcv'
      cases hcv'
      exact ⟨msb, hdec⟩
  have hstops := parseFile_stops_iff hend hbits hheader
  refine ⟨hstops, ?_⟩
  unfold elfParseFile
  rwa [endianArch_eq]

/-- One entry of 64 bytes in the table of program headers. -/
theorem elf_arrays_hold_big_endian : Kernel.elfParseFile some bigEndianImage ≠ .error .outOfBounds ∧
    elfParseFile some bigEndianImage ≠ .error .outOfBounds := by
  have hiff := elf_arrays_hold_iff (h := formatHeader bigEndianImage true .bits32)
    (show elfBits bigEndianImage = some .bits32 by decide) (by decide)
  have hall : TablesIn bigEndianImage .bits32 (formatHeader bigEndianImage true .bits32) ∧
      EntriesWide (formatHeader bigEndianImage true .bits32) := by
    unfold TablesIn EntriesWide
    decide +kernel
  exact ⟨fun hbad => hiff.1.1 hbad hall, fun hbad => hiff.2.1 hbad hall⟩

/-- The image with entries of 32 bytes, as the 32-bit format has them: both
parsers write behind the first array. -/
theorem elf_array_overrun : Kernel.elfParseFile some (bigEndianImage.set 43 32) = .error .outOfBounds ∧
    elfParseFile some (bigEndianImage.set 43 32) = .error .outOfBounds ∧
    TablesIn (bigEndianImage.set 43 32) .bits32
      (formatHeader (bigEndianImage.set 43 32) true .bits32) := by
  unfold TablesIn
  decide +kernel

end ChCore.Userland
