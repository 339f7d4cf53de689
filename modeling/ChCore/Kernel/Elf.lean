import Mathlib.Tactic.Ring
import Mathlib.Tactic.Positivity
import ChCore.Kernel.Base

/-!
# Reading ELF images

`elf_parse_file` reads a header and two tables of headers out of an image. The
fields of an image come in two sizes and two byte orders, all of them end up in
the 64-bit structures. The process manager has a copy of the parser which
differs in the names of the byte-order macros and in its allocator, so both are
one definition over these.

An image is the list of its bytes; an offset is relative to its start and wraps
around like the pointer that the source adds it to.
-/

namespace ChCore.Kernel

open List Nat

/-! ## Structures in memory -/

/-- The number that a load of these bytes gives. -/
def leValue (bytes : List UInt8) : Nat := bytes.foldr (fun b n => b.toNat + 256 * n) 0

def bytesAt (code : List UInt8) (off size : Nat) : List UInt8 := (code.drop off).take size

/-- Member `k` of the structure at an offset, from the sizes of its members.
All of them are at a multiple of their size, so nothing is padded. -/
def member (code : List UInt8) (off : Nat) (sizes : List Nat) (k : Nat) : Nat :=
  leValue (bytesAt code (off + (sizes.take k).sum) (sizes.getD k 0))

/-- A structure is read as a whole, and all of it has to be there. -/
def present (code : List UInt8) (off size : Nat) : Exec Unit :=
  if off + size ≤ code.length then .ok () else .error .outOfBounds

/-- The members of `struct elf_header`, the first is `e_indent`. -/
def elfHeaderSizes : List Nat := [16, 2, 2, 4, 8, 8, 8, 4, 2, 2, 2, 2, 2, 2]

def elfHeader32Sizes : List Nat := [16, 2, 2, 4, 4, 4, 4, 4, 2, 2, 2, 2, 2, 2]

def elfProgramHeaderSizes : List Nat := [4, 4, 8, 8, 8, 8, 8, 8]

def elfProgramHeader32Sizes : List Nat := [4, 4, 4, 4, 4, 4, 4, 4]

def elfSectionHeaderSizes : List Nat := [4, 4, 8, 8, 8, 8, 4, 4, 8, 8]

def elfSectionHeader32Sizes : List Nat := [4, 4, 4, 4, 4, 4, 4, 4, 4, 4]

/-- `struct elf_header`; the bytes of `e_indent` are kept as they are. -/
structure ElfHeader where
  eIndent : List UInt8
  eType : Nat
  eMachine : Nat
  eVersion : Nat
  eEntry : Nat
  ePhoff : Nat
  eShoff : Nat
  eFlags : Nat
  eEhsize : Nat
  ePhentsize : Nat
  ePhnum : Nat
  eShentsize : Nat
  eShnum : Nat
  eShstrndx : Nat
  deriving DecidableEq, Repr

/-- `struct elf_program_header`. -/
structure ElfProgramHeader where
  pType : Nat
  pFlags : Nat
  pOffset : Nat
  pVaddr : Nat
  pPaddr : Nat
  pFilesz : Nat
  pMemsz : Nat
  pAlign : Nat
  deriving DecidableEq, Repr

/-- `struct elf_section_header`. -/
structure ElfSectionHeader where
  shName : Nat
  shType : Nat
  shFlags : Nat
  shAddr : Nat
  shOffset : Nat
  shSize : Nat
  shLink : Nat
  shInfo : Nat
  shAddralign : Nat
  shEntsize : Nat
  deriving DecidableEq, Repr

/-- `struct elf_file`. -/
structure ElfFile where
  header : ElfHeader
  pHeaders : List ElfProgramHeader
  sHeaders : List ElfSectionHeader
  deriving DecidableEq, Repr

/-! ## Byte order -/

/-- The macros for one byte order, by the size of what they convert. -/
structure ToCpu where
  c16 : Nat → Nat
  c32 : Nat → Nat
  c64 : Nat → Nat

structure Endianness where
  le : ToCpu
  be : ToCpu

/-- `be16_to_cpu`. No step of the three macros leaves the width of its
operand. -/
def be16ToCpu (x : Nat) : Nat := ((x &&& 0xff) <<< 8) ||| ((x >>> 8) &&& 0xff)

/-- `be32_to_cpu`. -/
def be32ToCpu (x : Nat) : Nat := (be16ToCpu x <<< 16) ||| be16ToCpu (x >>> 16)

/-- `be64_to_cpu`. -/
def be64ToCpu (x : Nat) : Nat := (be32ToCpu x <<< 32) ||| be32ToCpu (x >>> 32)

/-- The macros of the kernel. -/
def endianness : Endianness where
  le := ⟨fun x => x, fun x => x, fun x => x⟩
  be := ⟨be16ToCpu, be32ToCpu, be64ToCpu⟩

/-! ## The parser -/

inductive ElfBits
  | bits32
  | bits64
  deriving DecidableEq, Repr

/-- `ELF_BITS_32` and `ELF_BITS_64`, from `ei_class`. -/
def elfBits (indent : List UInt8) : Option ElfBits := if indent.getD 4 0 = 1 then some .bits32
  else if indent.getD 4 0 = 2 then some .bits64
  else none

/-- `ELF_ENDIAN_LE` and `ELF_ENDIAN_BE`, from `ei_data`. -/
def elfEndian (e : Endianness) (indent : List UInt8) : Option ToCpu :=
  if indent.getD 5 0 = 1 then some e.le
  else if indent.getD 5 0 = 2 then some e.be
  else none

def elfMagic : List UInt8 := [0x7f, 0x45, 0x4c, 0x46]

/-- `is_elf_magic`: the bytes are compared until one differs. -/
def isElfMagic : List UInt8 → List UInt8 → Exec Bool
  | _, [] => .ok true
  | [], _ :: _ => .error .outOfBounds
  | b :: code, m :: magic =>
    if b = m then isElfMagic code magic else .ok false

def readHeader (cv : ToCpu) (code : List UInt8) : ElfBits → ElfHeader
  | .bits32 =>
    let header64 := member code 0 elfHeaderSizes
    let header32 := member code 0 elfHeader32Sizes
    { eIndent := code.take 16
      eType := cv.c16 (header64 1)
      eMachine := cv.c16 (header64 2)
      eVersion := cv.c32 (header32 3)
      eEntry := cv.c32 (header32 4)
      ePhoff := cv.c32 (header32 5)
      eShoff := cv.c32 (header32 6)
      eFlags := cv.c32 (header32 7)
      eEhsize := cv.c16 (header32 8)
      ePhentsize := cv.c16 (header32 9)
      ePhnum := cv.c16 (header32 10)
      eShentsize := cv.c16 (header32 11)
      eShnum := cv.c16 (header32 12)
      eShstrndx := cv.c16 (header32 13) }
  | .bits64 =>
    let header64 := member code 0 elfHeaderSizes
    let header32 := member code 0 elfHeader32Sizes
    { eIndent := code.take 16
      eType := cv.c16 (header64 1)
      eMachine := cv.c16 (header64 2)
      eVersion := cv.c32 (header32 3)
      eEntry := cv.c64 (header64 4)
      ePhoff := cv.c64 (header64 5)
      eShoff := cv.c64 (header64 6)
      eFlags := cv.c32 (header64 7)
      eEhsize := cv.c16 (header64 8)
      ePhentsize := cv.c16 (header64 9)
      ePhnum := cv.c16 (header64 10)
      eShentsize := cv.c16 (header64 11)
      eShnum := cv.c16 (header64 12)
      eShstrndx := cv.c16 (header64 13) }

/-- The size of `struct elf_header` or of its 32-bit form. -/
def headerSize : ElfBits → Nat
  | .bits32 => 52
  | .bits64 => 64

/-- `parse_elf_header`: the members up to `e_version` are read before the class
is looked at. -/
def parseElfHeader (e : Endianness) (code : List UInt8) : Exec (Except Int ElfHeader) := do
  if !(← isElfMagic code elfMagic) then return .error (-einval)
  present code 0 16
  match elfEndian e code with
  | none => return .error (-einval)
  | some cv =>
    present code 0 24
    match elfBits code with
    | none => return .error (-einval)
    | some bits =>
      present code 0 (headerSize bits)
      return .ok (readHeader cv code bits)

def readProgramHeader (cv : ToCpu) (code : List UInt8) (off : Nat) : ElfBits → ElfProgramHeader
  | .bits32 =>
    let header32 := member code off elfProgramHeader32Sizes
    { pType := cv.c32 (header32 0)
      pFlags := cv.c32 (header32 6)
      pOffset := cv.c32 (header32 1)
      pVaddr := cv.c32 (header32 2)
      pPaddr := cv.c32 (header32 3)
      pFilesz := cv.c32 (header32 4)
      pMemsz := cv.c32 (header32 5)
      pAlign := cv.c32 (header32 7) }
  | .bits64 =>
    let header64 := member code off elfProgramHeaderSizes
    { pType := cv.c32 (header64 0)
      pFlags := cv.c32 (header64 1)
      pOffset := cv.c64 (header64 2)
      pVaddr := cv.c64 (header64 3)
      pPaddr := cv.c64 (header64 4)
      pFilesz := cv.c64 (header64 5)
      pMemsz := cv.c64 (header64 6)
      pAlign := cv.c64 (header64 7) }

def readSectionHeader (cv : ToCpu) (code : List UInt8) (off : Nat) : ElfBits → ElfSectionHeader
  | .bits32 =>
    let header32 := member code off elfSectionHeader32Sizes
    { shName := cv.c32 (header32 0)
      shType := cv.c32 (header32 1)
      shFlags := cv.c32 (header32 2)
      shAddr := cv.c32 (header32 3)
      shOffset := cv.c32 (header32 4)
      shSize := cv.c32 (header32 5)
      shLink := cv.c32 (header32 6)
      shInfo := cv.c32 (header32 7)
      shAddralign := cv.c32 (header32 8)
      shEntsize := cv.c32 (header32 9) }
  | .bits64 =>
    let header64 := member code off elfSectionHeaderSizes
    { shName := cv.c32 (header64 0)
      shType := cv.c32 (header64 1)
      shFlags := cv.c64 (header64 2)
      shAddr := cv.c64 (header64 3)
      shOffset := cv.c64 (header64 4)
      shSize := cv.c64 (header64 5)
      shLink := cv.c32 (header64 6)
      shInfo := cv.c32 (header64 7)
      shAddralign := cv.c64 (header64 8)
      shEntsize := cv.c64 (header64 9) }

/-- The size of `struct elf_program_header` or of its 32-bit form. -/
def programHeaderSize : ElfBits → Nat
  | .bits32 => 32
  | .bits64 => 56

def sectionHeaderSize : ElfBits → Nat
  | .bits32 => 40
  | .bits64 => 64

/-- The body of `parse_elf_program_header` and of `parse_elf_section_header`. -/
def parseEntry {α : Type} (e : Endianness) (size : ElfBits → Nat)
    (read : ToCpu → List UInt8 → Nat → ElfBits → α) (code : List UInt8)
    (off : Nat) (elf : ElfHeader) : Exec (Except Int α) :=
  match elfEndian e elf.eIndent, elfBits elf.eIndent with
  | some cv, some bits => do
    present code off (size bits)
    return .ok (read cv code off bits)
  | _, _ => .ok (.error (-einval))

def parseElfProgramHeader (e : Endianness) := parseEntry e programHeaderSize readProgramHeader

def parseElfSectionHeader (e : Endianness) := parseEntry e sectionHeaderSize readSectionHeader

/-- The product of a 16-bit number and an `int`, widened to 64 bits. -/
def intMul (a b : Nat) : Nat := if a * b < 2 ^ 31 then a * b else a * b + (2 ^ 64 - 2 ^ 32)

/-- One of the two loops over a table: entry `i` is stored at index `i` of an
array that has room for `cap` bytes. -/
def parseTable {α : Type} (cap size : Nat) (parse : Nat → Exec (Except Int α)) :
    Nat → Nat → Exec (Except Int (List α))
  | _, 0 => .ok (.ok [])
  | i, n + 1 => do
    if cap < (i + 1) * size then .error .outOfBounds
    match ← parse i with
    | .error err => return .error err
    | .ok header =>
      match ← parseTable cap size parse (i + 1) n with
      | .error err => return .error err
      | .ok rest => return .ok (header :: rest)

/-- `elf_parse_file`, over the macros and the allocator: `alloc` gives the
number of bytes that the block for a request has, or nothing. -/
def parseFile (e : Endianness) (alloc : Nat → Option Nat)
    (code : List UInt8) : Exec (Except Int ElfFile) :=
  match alloc 80 with
  | none => .ok (.error (-enomem))
  | some _ => do
    match ← parseElfHeader e code with
    | .error err => return .error err
    | .ok h =>
      match alloc (intMul h.ePhentsize h.ePhnum) with
      | none => return .error (-enomem)
      | some pCap =>
        match alloc (intMul h.eShentsize h.eShnum) with
        | none => return .error (-enomem)
        | some sCap =>
          let program i := parseElfProgramHeader e code (u64 (h.ePhoff + intMul h.ePhentsize i)) h
          let sect i := parseElfSectionHeader e code (u64 (h.eShoff + intMul h.eShentsize i)) h
          match ← parseTable pCap 56 program 0 h.ePhnum with
          | .error err => return .error err
          | .ok pHeaders =>
            match ← parseTable sCap 64 sect 0 h.eShnum with
            | .error err => return .error err
            | .ok sHeaders => return .ok ⟨h, pHeaders, sHeaders⟩

/-- `elf_parse_file` of the kernel. -/
def elfParseFile (kmalloc : Nat → Option Nat) (code : List UInt8) : Exec (Except Int ElfFile) :=
  parseFile endianness kmalloc code

/-! ## The format -/

/-- The number in a field, by the byte order of the image. -/
def elfField (code : List UInt8) (msb : Bool) (off size : Nat) : Nat :=
  if msb then leValue (bytesAt code off size).reverse
  else leValue (bytesAt code off size)

/-- Where the format places the fields of the header. -/
def formatHeader (code : List UInt8) (msb : Bool) : ElfBits → ElfHeader
  | .bits32 =>
    let f := elfField code msb
    ⟨code.take 16, f 16 2, f 18 2, f 20 4, f 24 4, f 28 4, f 32 4, f 36 4,
      f 40 2, f 42 2, f 44 2, f 46 2, f 48 2, f 50 2⟩
  | .bits64 =>
    let f := elfField code msb
    ⟨code.take 16, f 16 2, f 18 2, f 20 4, f 24 8, f 32 8, f 40 8, f 48 4,
      f 52 2, f 54 2, f 56 2, f 58 2, f 60 2, f 62 2⟩

def formatProgramHeader (code : List UInt8) (msb : Bool) (off : Nat) : ElfBits → ElfProgramHeader
  | .bits32 =>
    let f k := elfField code msb (off + k)
    ⟨f 0 4, f 24 4, f 4 4, f 8 4, f 12 4, f 16 4, f 20 4, f 28 4⟩
  | .bits64 =>
    let f k := elfField code msb (off + k)
    ⟨f 0 4, f 4 4, f 8 8, f 16 8, f 24 8, f 32 8, f 40 8, f 48 8⟩

def formatSectionHeader (code : List UInt8) (msb : Bool) (off : Nat) : ElfBits → ElfSectionHeader
  | .bits32 =>
    let f k := elfField code msb (off + k)
    ⟨f 0 4, f 4 4, f 8 4, f 12 4, f 16 4, f 20 4, f 24 4, f 28 4, f 32 4, f 36 4⟩
  | .bits64 =>
    let f k := elfField code msb (off + k)
    ⟨f 0 4, f 4 4, f 8 8, f 16 8, f 24 8, f 32 8, f 40 4, f 44 4, f 48 8, f 56 8⟩

/-- What an image says, by its class and byte order. -/
def formatFile (code : List UInt8) (msb : Bool) (bits : ElfBits) : ElfFile :=
  let h := formatHeader code msb bits
  { header := h
    pHeaders := (List.range h.ePhnum).map fun i =>
      formatProgramHeader code msb (h.ePhoff + h.ePhentsize * i) bits
    sHeaders := (List.range h.eShnum).map fun i =>
      formatSectionHeader code msb (h.eShoff + h.eShentsize * i) bits }

/-! ## The macros convert -/

/-- The macros turn what a load gives into the number in the field. -/
structure ToCpu.Decodes (cv : ToCpu) (msb : Bool) : Prop where
  field16 : ∀ code off, off + 2 ≤ code.length →
    cv.c16 (leValue (bytesAt code off 2)) = elfField code msb off 2
  field32 : ∀ code off, off + 4 ≤ code.length →
    cv.c32 (leValue (bytesAt code off 4)) = elfField code msb off 4
  field64 : ∀ code off, off + 8 ≤ code.length →
    cv.c64 (leValue (bytesAt code off 8)) = elfField code msb off 8

lemma ToCpu.decodes_id : ToCpu.Decodes ⟨fun x => x, fun x => x, fun x => x⟩ false :=
  ⟨fun _ _ _ => rfl, fun _ _ _ => rfl, fun _ _ _ => rfl⟩

lemma be16ToCpu_eq (x : Nat) : be16ToCpu x = x % 256 * 256 + x / 256 % 256 := by
  have hlow (y : Nat) : y &&& 0xff = y % 256 := and_two_pow_sub_one_eq_mod y 8
  rw [be16ToCpu, hlow, hlow, shiftRight_eq_div_pow,
    ← shiftLeft_add_eq_or_of_lt (mod_lt _ (by decide)),
    shiftLeft_eq]

lemma be32ToCpu_eq (x : Nat) : be32ToCpu x = be16ToCpu x * 65536 + be16ToCpu (x / 65536) := by
  have hlt : be16ToCpu (x >>> 16) < 2 ^ 16 := by
    rw [be16ToCpu_eq]
    omega
  rw [be32ToCpu, ← shiftLeft_add_eq_or_of_lt hlt, shiftLeft_eq, shiftRight_eq_div_pow]

lemma be64ToCpu_eq (x : Nat) :
    be64ToCpu x = be32ToCpu x * 4294967296 + be32ToCpu (x / 4294967296) := by
  have hlt : be32ToCpu (x >>> 32) < 2 ^ 32 := by
    rw [be32ToCpu_eq, be16ToCpu_eq, be16ToCpu_eq]
    omega
  rw [be64ToCpu, ← shiftLeft_add_eq_or_of_lt hlt, shiftLeft_eq, shiftRight_eq_div_pow]

lemma length_bytesAt {code : List UInt8} {off size : Nat}
    (h : off + size ≤ code.length) : (bytesAt code off size).length = size := by
  rw [bytesAt, length_take, length_drop]
  omega

lemma leValue_append (xs ys : List UInt8) :
    leValue (xs ++ ys) = leValue xs + 256 ^ xs.length * leValue ys := by
  induction xs with
  | nil => simp [leValue]
  | cons x xs ih =>
    have hcons (zs : List UInt8) : leValue (x :: zs) = x.toNat + 256 * leValue zs := rfl
    rw [cons_append, hcons, hcons, ih, length_cons, pow_succ]
    ring

lemma leValue_lt (xs : List UInt8) : leValue xs < 256 ^ xs.length := by
  induction xs with
  | nil => simp [leValue]
  | cons x xs ih =>
    have hx := x.toNat_lt
    have hcons : leValue (x :: xs) = x.toNat + 256 * leValue xs := rfl
    rw [hcons, length_cons, pow_succ]
    omega

/-- `f` reverses the lowest `n` bytes of a number and drops the others. -/
def Reverses (f : Nat → Nat) (n : Nat) : Prop := ∀ bytes r, bytes.length = n →
    f (leValue bytes + 256 ^ n * r) = leValue bytes.reverse

lemma reverses_byte : Reverses (fun x => x % 256) 1 := by
  intro bytes r hlen
  obtain ⟨b, rfl⟩ := length_eq_one_iff.1 hlen
  have hb := b.toNat_lt
  simp only [leValue, reverse_singleton, foldr_cons, foldr_nil]
  omega

/-- Each macro swaps the two halves that the smaller one reverses. -/
lemma Reverses.double {f g : Nat → Nat} {n : Nat} (hf : Reverses f n)
    (hg : ∀ x, g x = f x * 256 ^ n + f (x / 256 ^ n)) : Reverses g (n + n) := by
  intro bytes r hlen
  have hlow : (bytes.take n).length = n := by simp [hlen]
  have hhigh : (bytes.drop n).length = n := by simp [hlen]
  have hsplit : leValue bytes = leValue (bytes.take n) + 256 ^ n * leValue (bytes.drop n) := by
    conv_lhs => rw [← take_append_drop n bytes, leValue_append, hlow]
  have hx : leValue bytes + 256 ^ (n + n) * r = leValue (bytes.take n) +
      256 ^ n * (leValue (bytes.drop n) + 256 ^ n * r) := by
    rw [hsplit, pow_add]
    ring
  have hdiv : (leValue bytes + 256 ^ (n + n) * r) / 256 ^ n =
      leValue (bytes.drop n) + 256 ^ n * r := by
    have hlt := leValue_lt (bytes.take n)
    rw [hlow] at hlt
    rw [hx, add_mul_div_left _ _ (by positivity), div_eq_of_lt hlt, zero_add]
  rw [hg, hdiv, hf _ r hhigh, hx, hf _ _ hlow]
  conv_rhs => rw [← take_append_drop n bytes, reverse_append, leValue_append, length_reverse, hhigh]
  ring

lemma reverses_be16 : Reverses be16ToCpu 2 := reverses_byte.double be16ToCpu_eq

lemma reverses_be32 : Reverses be32ToCpu 4 := reverses_be16.double be32ToCpu_eq

lemma reverses_be64 : Reverses be64ToCpu 8 := reverses_be32.double be64ToCpu_eq

lemma Reverses.field {f : Nat → Nat} {n : Nat} (hf : Reverses f n)
    {code : List UInt8} {off : Nat} (h : off + n ≤ code.length) :
    f (leValue (bytesAt code off n)) = elfField code true off n :=
  hf _ 0 (length_bytesAt h)

lemma ToCpu.decodes_be : ToCpu.Decodes ⟨be16ToCpu, be32ToCpu, be64ToCpu⟩ true :=
  ⟨fun _ _ h => reverses_be16.field h, fun _ _ h => reverses_be32.field h,
    fun _ _ h => reverses_be64.field h⟩

/-! ## The parser reads what the format says -/

section

variable {cv : ToCpu} {msb : Bool} {code : List UInt8}

variable {bits : ElfBits}

lemma readHeader_eq (hcv : cv.Decodes msb) (h : headerSize bits ≤ code.length) :
    readHeader cv code bits = formatHeader code msb bits := by
  cases bits with
  | bits32 | bits64 =>
    rw [headerSize] at h
    simp (disch := omega) [readHeader, formatHeader, member, elfHeaderSizes,
      elfHeader32Sizes, hcv.field16, hcv.field32, hcv.field64,
      List.getElem?_cons_zero]

variable {off : Nat}

lemma readProgramHeader_eq (hcv : cv.Decodes msb) (h : off + programHeaderSize bits ≤ code.length) :
    readProgramHeader cv code off bits = formatProgramHeader code msb off bits := by
  cases bits with
  | bits32 | bits64 =>
    rw [programHeaderSize] at h
    simp (disch := omega) [readProgramHeader, formatProgramHeader, member, elfProgramHeaderSizes,
      elfProgramHeader32Sizes, hcv.field32, hcv.field64, List.getElem?_cons_zero]

lemma readSectionHeader_eq (hcv : cv.Decodes msb) (h : off + sectionHeaderSize bits ≤ code.length) :
    readSectionHeader cv code off bits = formatSectionHeader code msb off bits := by
  cases bits with
  | bits32 | bits64 =>
    rw [sectionHeaderSize] at h
    simp (disch := omega) [readSectionHeader, formatSectionHeader, member, elfSectionHeaderSizes,
      elfSectionHeader32Sizes, hcv.field32, hcv.field64, List.getElem?_cons_zero]

lemma isElfMagic_append (magic rest : List UInt8) :
    isElfMagic (magic ++ rest) magic = .ok true := by
  induction magic with
  | nil => cases rest <;> rfl
  | cons m magic ih => simp [isElfMagic, ih]

lemma isElfMagic_of_take (h : code.take 4 = elfMagic) : isElfMagic code elfMagic = .ok true := by
  have happ := isElfMagic_append elfMagic (code.drop 4)
  rwa [← h, take_append_drop, h] at happ

lemma parseTable_eq {α : Type} {cap size : Nat}
    {parse : Nat → Exec (Except Int α)} {f : Nat → α} (n : Nat) :
    ∀ i, (i + n) * size ≤ cap → (∀ j, i ≤ j → j < i + n → parse j = .ok (.ok (f j))) →
    parseTable cap size parse i n = .ok (.ok ((List.range' i n).map f)) := by
  induction n with
  | zero => exact fun _ _ _ => rfl
  | succ n ih =>
    intro i hcap hparse
    have hroom : ¬ cap < (i + 1) * size := not_lt.2 (le_trans (mul_le_mul_right _ (by omega)) hcap)
    have hrest := ih (i + 1) (by rwa [add_right_comm i 1 n]) fun j hij hj =>
      hparse j (by omega) (by omega)
    rw [parseTable, if_neg hroom, hparse i (le_refl i) (by omega)]
    simp only [ok_bind, hrest, List.range'_succ, map_cons]
    rfl

variable {e : Endianness}

lemma parseEntry_eq {α : Type} {size : ElfBits → Nat}
    {read : ToCpu → List UInt8 → Nat → ElfBits → α} {elf : ElfHeader} {a : α}
    (hcv : elfEndian e elf.eIndent = some cv) (hbits : elfBits elf.eIndent = some bits)
    (hoff : off + size bits ≤ code.length) (hread : read cv code off bits = a) :
    parseEntry e size read code off elf = .ok (.ok a) := by
  simp only [parseEntry, hcv, hbits, present, if_pos hoff, ok_bind, hread]
  rfl

/-- The header and the two tables are in the image, which is below the end of
the address space, and the tables are shorter than 2 GiB. -/
structure TablesPresent (code : List UInt8) (bits : ElfBits) (h : ElfHeader) : Prop where
  header : headerSize bits ≤ code.length
  length : code.length < 2 ^ 64
  pSize : h.ePhentsize * h.ePhnum < 2 ^ 31
  sSize : h.eShentsize * h.eShnum < 2 ^ 31
  program : ∀ i, i < h.ePhnum → h.ePhoff + h.ePhentsize * i + programHeaderSize bits ≤ code.length
  sect : ∀ i, i < h.eShnum → h.eShoff + h.eShentsize * i + sectionHeaderSize bits ≤ code.length

/-- The allocations succeed, and the arrays have room for the headers. -/
structure ArraysFit (alloc : Nat → Option Nat) (h : ElfHeader) : Prop where
  elf : (alloc 80).isSome
  program : ∃ cap, alloc (h.ePhentsize * h.ePhnum) = some cap ∧ h.ePhnum * 56 ≤ cap
  sect : ∃ cap, alloc (h.eShentsize * h.eShnum) = some cap ∧ h.eShnum * 64 ≤ cap

lemma intMul_of_lt {a b n : Nat} (hsize : a * n < 2 ^ 31) (hb : b ≤ n) : intMul a b = a * b :=
  if_pos (lt_of_le_of_lt (mul_le_mul_left a hb) hsize)

lemma getD_take {n k : Nat} (h : k < n) (d : UInt8) : (code.take n).getD k d = code.getD k d := by
  rw [getD_eq_getElem?_getD, List.getElem?_take_of_lt h, getD_eq_getElem?_getD]

/-- Over macros that convert, the parser returns what the format says. -/
lemma parseFile_eq {alloc : Nat → Option Nat}
    (hmagic : code.take 4 = elfMagic) (hbits : elfBits code = some bits)
    (hend : elfEndian e code = some cv) (hcv : cv.Decodes msb)
    (hin : TablesPresent code bits (formatHeader code msb bits))
    (hfit : ArraysFit alloc (formatHeader code msb bits)) :
    parseFile e alloc code = .ok (.ok (formatFile code msb bits)) := by
  have h24 : 24 ≤ code.length := by
    have := hin.header
    cases bits <;> simp only [headerSize] at this <;> omega
  have hheader : parseElfHeader e code = .ok (.ok (formatHeader code msb bits)) := by
    simp only [parseElfHeader, isElfMagic_of_take hmagic, present, zero_add,
      if_pos (le_trans (by decide : 16 ≤ 24) h24), if_pos h24, hend, hbits,
      if_pos hin.header, readHeader_eq hcv hin.header, ok_bind]
    rfl
  -- The byte order and the class are looked up in the copy of `e_indent`.
  have hindent : (formatHeader code msb bits).eIndent = code.take 16 := by cases bits <;> rfl
  have hend' : elfEndian e (formatHeader code msb bits).eIndent = some cv := by
    rw [hindent, elfEndian, getD_take (by decide)]
    exact hend
  have hbits' : elfBits (formatHeader code msb bits).eIndent = some bits := by
    rw [hindent, elfBits, getD_take (by decide)]
    exact hbits
  obtain ⟨elf, helf⟩ := Option.isSome_iff_exists.1 hfit.elf
  obtain ⟨pCap, hpCap, hproom⟩ := hfit.program
  obtain ⟨sCap, hsCap, hsroom⟩ := hfit.sect
  simp only [parseFile, helf, hheader, ok_bind, intMul_of_lt hin.pSize le_rfl, hpCap,
    intMul_of_lt hin.sSize le_rfl, hsCap]
  rw [parseTable_eq (f := fun i => formatProgramHeader code msb
        ((formatHeader code msb bits).ePhoff +
          (formatHeader code msb bits).ePhentsize * i) bits) _ 0
      (by rwa [zero_add]) fun i _ hi => ?_, ok_bind]
  · simp only []
    rw [parseTable_eq (f := fun i => formatSectionHeader code msb
          ((formatHeader code msb bits).eShoff +
            (formatHeader code msb bits).eShentsize * i) bits) _ 0
        (by rwa [zero_add]) fun i _ hi => ?_, ok_bind]
    · simp only [formatFile, range_eq_range']
      rfl
    rw [zero_add] at hi
    have hi' := hin.sect i hi
    have hlen := hin.length
    rw [intMul_of_lt hin.sSize (le_of_lt hi), u64_of_lt (by omega)]
    exact parseEntry_eq hend' hbits' hi' (readSectionHeader_eq hcv hi')
  · rw [zero_add] at hi
    have hi' := hin.program i hi
    have hlen := hin.length
    rw [intMul_of_lt hin.pSize (le_of_lt hi), u64_of_lt (by omega)]
    exact parseEntry_eq hend' hbits' hi' (readProgramHeader_eq hcv hi')

/-- An image of another class or byte order is rejected. -/
lemma parseFile_rejects {alloc : Nat → Option Nat}
    (halloc : (alloc 80).isSome) (hmagic : code.take 4 = elfMagic) (h24 : 24 ≤ code.length)
    (hcode : elfEndian e code = none ∨ elfBits code = none) :
    parseFile e alloc code = .ok (.error (-einval)) := by
  obtain ⟨elf, helf⟩ := Option.isSome_iff_exists.1 halloc
  have h16 : 0 + 16 ≤ code.length := by omega
  simp only [parseFile, helf, parseElfHeader, isElfMagic_of_take hmagic,
    ok_bind, present, if_pos h16]
  cases hend : elfEndian e code with
  | none => rfl
  | some cv =>
    rw [hend] at hcode
    have hbits := hcode.resolve_left (by simp)
    simp only [zero_add, if_pos h24, hbits]
    rfl

end

end ChCore.Kernel
