import Mathlib.Data.List.Forall2
import ChCore.Kernel.Base

/-!
# Extracting cpio archives

`cpio_extract` reads an archive in the newc format from memory and collects its
members in the list `g_files`. The sizes in a header say where the next header
is; paddings are computed on absolute addresses. `calloc` is taken to succeed,
so the branch without memory for a member is not reached.
-/

namespace ChCore.Userland

open Kernel List

/-- `n` bytes of memory. -/
def bytesFrom (mem : Nat → UInt8) (p n : Nat) : List UInt8 :=
  (List.range n).map fun i => mem (p + i)

/-- One round of `hex8_u64`. Of other characters `s[i] - '0'` may be negative. -/
def hexDigit (c : UInt8) : Nat := if 65 ≤ c.toNat ∧ c.toNat ≤ 70 then c.toNat - 65 + 10
  else u64 (2 ^ 64 + c.toNat - 48)

/-- `hex8_u64`. -/
def hex8U64 (s : List UInt8) : Nat := s.foldl (fun u c => u64 (u64 (u <<< 4) + hexDigit c)) 0

/-- `struct cpio_header`; nothing is stored in its `c_magic`. -/
structure CpioHeader where
  cIno : Nat
  cMode : Nat
  cUid : Nat
  cGid : Nat
  cNlink : Nat
  cMtime : Nat
  cFilesize : Nat
  cDevmajor : Nat
  cDevminor : Nat
  cRdevmajor : Nat
  cRdevminor : Nat
  cNamesize : Nat
  cCheck : Nat
  deriving DecidableEq, Repr

/-- `struct cpio_file` without its link; `name` and `data` point into the
archive. -/
structure CpioFile where
  header : CpioHeader
  name : Nat
  data : Nat
  deriving DecidableEq, Repr

/-- `"070701"`. -/
def newcMagic : List UInt8 := [48, 55, 48, 55, 48, 49]

/-- `cpio_parse_header`: field `k` of `struct cpio_newc_header` follows six
bytes and `k` fields. -/
def cpioParseHeader (mem : Nat → UInt8) (addr : Nat) : Exec CpioHeader :=
  if bytesFrom mem addr 6 ≠ newcMagic then .error .bug
  else
    let field k := hex8U64 (bytesFrom mem (addr + 6 + 8 * k) 8)
    .ok
      { cIno := field 0
        cMode := field 1
        cUid := field 2
        cGid := field 3
        cNlink := field 4
        cMtime := field 5
        cFilesize := field 6
        cDevmajor := field 7
        cDevminor := field 8
        cRdevmajor := field 9
        cRdevminor := field 10
        cNamesize := field 11
        cCheck := field 12 }

/-- `ALIGN4_UP`: the low two bits are cleared, and 4 is added if one was set. -/
def align4Up (x : Nat) : Nat := u64 (x / 4 * 4 + if x % 4 ≠ 0 then 4 else 0)

/-- `"TRAILER!!!"`. -/
def trailerName : List UInt8 := [84, 82, 65, 73, 76, 69, 82, 33, 33, 33]

/-- The rounds of `cpio_extract`, with `cpio_add_file` at their end; nothing is
returned if the trailer is not reached with this fuel. -/
def cpioExtract (mem : Nat → UInt8) : Nat → Nat → List CpioFile → Exec (Option (List CpioFile))
  | 0, _, _ => .ok none
  | fuel + 1, p, gFiles => do
    let header ← cpioParseHeader mem p
    let name := u64 (p + 110)
    if bytesFrom mem name 11 = trailerName ++ [0] then return some gFiles
    let data := align4Up (u64 (name + header.cNamesize))
    let next := align4Up (u64 (data + header.cFilesize))
    cpioExtract mem fuel next (gFiles ++ [⟨header, name, data⟩])

/-! ## The newc format -/

/-- The numbers of a header, in the order of the format. -/
def CpioHeader.numbers (h : CpioHeader) : List Nat :=
  [h.cIno, h.cMode, h.cUid, h.cGid, h.cNlink, h.cMtime, h.cFilesize,
    h.cDevmajor, h.cDevminor, h.cRdevmajor, h.cRdevminor, h.cNamesize, h.cCheck]

/-- A member of an archive: its sizes are those of its name, with the `NUL`,
and of its data, and its numbers have at most eight digits. -/
structure CpioMember where
  header : CpioHeader
  name : List UInt8
  data : List UInt8
  noNul : 0 ∉ name
  namesize : header.cNamesize = name.length + 1
  filesize : header.cFilesize = data.length
  fits : ∀ n ∈ header.numbers, n < 2 ^ 32

/-- An upper-case digit. -/
def hexChar (d : Nat) : UInt8 := UInt8.ofNat (if d < 10 then 48 + d else 55 + d)

/-- The last `w` hexadecimal digits of a number. -/
def encodeHex : Nat → Nat → List UInt8
  | 0, _ => []
  | w + 1, n => encodeHex w (n / 16) ++ [hexChar (n % 16)]

def pad4 (bytes : List UInt8) : List UInt8 := bytes ++ List.replicate ((4 - bytes.length % 4) % 4) 0

def CpioHeader.encode (h : CpioHeader) : List UInt8 := newcMagic ++ h.numbers.flatMap (encodeHex 8)

def CpioMember.encode (m : CpioMember) : List UInt8 :=
  pad4 (m.header.encode ++ (m.name ++ [0])) ++ pad4 m.data

/-- An archive ends with its trailer. -/
def encodeArchive (members : List CpioMember) (trailer : CpioMember) : List UInt8 :=
  members.flatMap CpioMember.encode ++ trailer.encode

/-! ## Bytes in memory -/

/-- The memory from an address on starts with these bytes. -/
def Holds (mem : Nat → UInt8) (p : Nat) (bytes : List UInt8) : Prop :=
  bytesFrom mem p bytes.length = bytes

section

variable {mem : Nat → UInt8} {p : Nat}

lemma holds_append {xs ys : List UInt8} :
    Holds mem p (xs ++ ys) ↔ Holds mem p xs ∧ Holds mem (p + xs.length) ys := by
  have hsplit : bytesFrom mem p (xs ++ ys).length =
      bytesFrom mem p xs.length ++ bytesFrom mem (p + xs.length) ys.length := by
    simp [bytesFrom, range_add, Function.comp_def, add_assoc]
  unfold Holds
  rw [hsplit]
  constructor
  · intro h
    exact append_inj h (by simp [bytesFrom])
  · rintro ⟨hx, hy⟩
    rw [hx, hy]

lemma Holds.get {bytes : List UInt8} (h : Holds mem p bytes) {i : Nat}
    (hi : i < bytes.length) : bytes[i] = mem (p + i) := by
  have hget := congrArg (fun l : List UInt8 => l[i]?) h
  simp only [bytesFrom, List.getElem?_map, List.getElem?_range hi,
    List.getElem?_eq_getElem hi, Option.map_some, Option.some.injEq] at hget
  exact hget.symm

/-- A text ends at its first `NUL`. -/
lemma Holds.length_le {xs ys : List UInt8} (hx : Holds mem p (xs ++ [0]))
    (hy : Holds mem p (ys ++ [0])) (hnul : 0 ∉ ys) : ys.length ≤ xs.length := by
  by_contra hlt
  rw [not_le] at hlt
  have hend := hx.get (i := xs.length) (by simp)
  have hmid := hy.get (i := xs.length) (by simp; omega)
  rw [getElem_append_left hlt] at hmid
  simp only [getElem_concat_length] at hend
  exact hnul ((hmid.trans hend.symm) ▸ getElem_mem hlt)

lemma Holds.text_unique {xs ys : List UInt8} (hx : Holds mem p (xs ++ [0]))
    (hy : Holds mem p (ys ++ [0])) (hxnul : 0 ∉ xs) (hynul : 0 ∉ ys) : xs = ys := by
  have hlen : xs.length = ys.length := le_antisymm (hy.length_le hx hxnul) (hx.length_le hy hynul)
  have hsame : xs ++ [0] = ys ++ [0] := by rw [← hx, ← hy, length_append, length_append, hlen]
  exact append_cancel_right hsame

/-! ## Headers -/

lemma hexDigit_hexChar : ∀ d, d < 16 → hexDigit (hexChar d) = d := by decide

lemma length_encodeHex (w n : Nat) : (encodeHex w n).length = w := by
  induction w generalizing n with
  | zero => rfl
  | succ w ih => simp [encodeHex, ih]

lemma hex8U64_encodeHex (w : Nat) : ∀ n, n < 16 ^ w → n < 2 ^ 64 → hex8U64 (encodeHex w n) = n := by
  induction w with
  | zero =>
    intro n hn _
    obtain rfl : n = 0 := by omega
    rfl
  | succ w ih =>
    intro n hn hlt
    rw [Nat.pow_succ] at hn
    have hinit := ih (n / 16) (by omega) (by omega)
    have hdigit := hexDigit_hexChar (n % 16) (by omega)
    rw [encodeHex, hex8U64, foldl_append]
    change u64 (u64 (hex8U64 (encodeHex w (n / 16)) <<< 4) + _) = n
    rw [hinit, hdigit, Nat.shiftLeft_eq,
      u64_of_lt (show n / 16 * 2 ^ 4 < 2 ^ 64 by omega), u64_of_lt (by omega)]
    omega

/-- Each number of a header is at its place. -/
lemma Holds.number {ns : List Nat} (h : Holds mem p (ns.flatMap (encodeHex 8)))
    {k n : Nat} (hk : ns[k]? = some n) : bytesFrom mem (p + 8 * k) 8 = encodeHex 8 n := by
  induction ns generalizing p k with
  | nil => simp at hk
  | cons m ns ih =>
    rw [flatMap_cons, holds_append, length_encodeHex] at h
    cases k with
    | zero =>
      obtain rfl : m = n := by simpa using hk
      have hhere := h.1
      rwa [Holds, length_encodeHex] at hhere
    | succ k =>
      have hrest := ih h.2 (k := k) (by simpa using hk)
      rwa [show p + 8 * (k + 1) = p + 8 + 8 * k by omega]

lemma length_header (h : CpioHeader) : h.encode.length = 110 := by
  simp [CpioHeader.encode, CpioHeader.numbers, newcMagic, length_encodeHex]

lemma cpioParseHeader_eq {h : CpioHeader}
    (hfits : ∀ n ∈ h.numbers, n < 2 ^ 32) (hmem : Holds mem p h.encode) :
    cpioParseHeader mem p = .ok h := by
  obtain ⟨hmagic, hnumbers⟩ := holds_append.1 hmem
  change bytesFrom mem p 6 = newcMagic at hmagic
  change Holds mem (p + 6) _ at hnumbers
  have hfield (k n : Nat) (hk : h.numbers[k]? = some n) :
      hex8U64 (bytesFrom mem (p + 6 + 8 * k) 8) = n := by
    have hn := hfits n (mem_of_getElem? hk)
    rw [hnumbers.number hk, hex8U64_encodeHex 8 n hn (by omega)]
  rw [cpioParseHeader, if_neg (not_not.2 hmagic)]
  simp only [hfield 0 _ rfl, hfield 1 _ rfl, hfield 2 _ rfl, hfield 3 _ rfl,
    hfield 4 _ rfl, hfield 5 _ rfl, hfield 6 _ rfl, hfield 7 _ rfl,
    hfield 8 _ rfl, hfield 9 _ rfl, hfield 10 _ rfl, hfield 11 _ rfl,
    hfield 12 _ rfl]

/-! ## Members -/

/-- Padding is the same on an aligned address and on the length. -/
lemma align4Up_eq {a : Nat} (ha : 4 ∣ a) {bytes : List UInt8}
    (hlt : a + (pad4 bytes).length < 2 ^ 64) :
    align4Up (a + bytes.length) = a + (pad4 bytes).length := by
  obtain ⟨b, rfl⟩ := ha
  rw [pad4, length_append, length_replicate] at hlt ⊢
  rw [align4Up, u64_of_lt]
  · split <;> omega
  · split <;> omega

lemma dvd_length_pad4 (bytes : List UInt8) : 4 ∣ (pad4 bytes).length := by
  rw [pad4, length_append, length_replicate]
  omega

/-- An extracted file is the member. -/
structure Extracted (mem : Nat → UInt8) (f : CpioFile) (m : CpioMember) : Prop where
  header : f.header = m.header
  name : Holds mem f.name (m.name ++ [0])
  data : Holds mem f.data m.data

lemma length_le_pad4 (bytes : List UInt8) : bytes.length ≤ (pad4 bytes).length := by
  rw [pad4, length_append]
  omega

/-- The header of a member with its name. -/
def CpioMember.front (m : CpioMember) : List UInt8 := m.header.encode ++ (m.name ++ [0])

lemma CpioMember.length_front (m : CpioMember) : m.front.length = 110 + m.header.cNamesize := by
  rw [CpioMember.front, length_append, length_header, length_append, m.namesize]
  rfl

lemma CpioMember.length_encode (m : CpioMember) :
    m.encode.length = (pad4 m.front).length + (pad4 m.data).length :=
  length_append

/-- What is collected for a member whose header is at `p`. -/
def CpioMember.fileAt (m : CpioMember) (p : Nat) : CpioFile :=
  ⟨m.header, p + 110, p + (pad4 m.front).length⟩

lemma CpioMember.holds {m : CpioMember} (h : Holds mem p m.encode) :
    Holds mem p m.header.encode ∧ Extracted mem (m.fileAt p) m := by
  obtain ⟨hfront, hdata⟩ := holds_append.1 h
  have hfront := (holds_append.1 hfront).1
  rw [holds_append, length_header] at hfront
  exact ⟨hfront.1, rfl, hfront.2, (holds_append.1 hdata).1⟩

/-- One round extracts one member and ends at the next one. -/
lemma cpioExtract_member {m : CpioMember} (h : Holds mem p m.encode)
    (hne : m.name ≠ trailerName) (hp : 4 ∣ p)
    (hlt : p + m.encode.length < 2 ^ 64) (fuel : Nat) (gFiles : List CpioFile) :
    cpioExtract mem (fuel + 1) p gFiles =
    cpioExtract mem fuel (p + m.encode.length) (gFiles ++ [m.fileAt p]) := by
  obtain ⟨hheader, hfile⟩ := CpioMember.holds h
  have hfront := length_le_pad4 m.front
  have hdata := length_le_pad4 m.data
  have hfrontLen := m.length_front
  rw [m.length_encode] at hlt ⊢
  have hdataAt : align4Up (u64 (p + 110 + m.header.cNamesize)) = p + (pad4 m.front).length := by
    rw [u64_of_lt (by omega), add_assoc, ← hfrontLen, align4Up_eq hp (by omega)]
  have hnext : align4Up (u64 (p + (pad4 m.front).length + m.header.cFilesize)) =
      p + ((pad4 m.front).length + (pad4 m.data).length) := by
    rw [m.filesize, u64_of_lt (by omega),
      align4Up_eq (Nat.dvd_add hp (dvd_length_pad4 _)) (by omega), add_assoc]
  have hother : ¬ bytesFrom mem (p + 110) 11 = trailerName ++ [0] := fun heq =>
    have htrailer : Holds mem (p + 110) (trailerName ++ [0]) := heq
    hne (hfile.name.text_unique htrailer m.noNul (by decide))
  rw [cpioExtract, cpioParseHeader_eq m.fits hheader, ok_bind]
  simp only [u64_of_lt (show p + 110 < 2 ^ 64 by omega), if_neg hother, hdataAt, hnext]
  rfl

/-- The extraction ends at the trailer. -/
lemma cpioExtract_trailer {m : CpioMember} (h : Holds mem p m.encode)
    (hname : m.name = trailerName) (hlt : p + m.encode.length < 2 ^ 64)
    (fuel : Nat) (gFiles : List CpioFile) :
    cpioExtract mem (fuel + 1) p gFiles = .ok (some gFiles) := by
  obtain ⟨hheader, hfile⟩ := CpioMember.holds h
  have htext := hfile.name
  rw [hname] at htext
  have hfront := length_le_pad4 m.front
  rw [m.length_front] at hfront
  rw [m.length_encode] at hlt
  have htrailer : bytesFrom mem (p + 110) 11 = trailerName ++ [0] := htext
  rw [cpioExtract, cpioParseHeader_eq m.fits hheader, ok_bind, u64_of_lt (by omega)]
  simp only [if_pos htrailer]
  rfl

lemma cpioExtract_members {trailer : CpioMember}
    (htrailer : trailer.name = trailerName) (members : List CpioMember) :
    ∀ (p : Nat) (gFiles : List CpioFile), 4 ∣ p →
    p + (encodeArchive members trailer).length < 2 ^ 64 → (∀ m ∈ members, m.name ≠ trailerName) →
    Holds mem p (encodeArchive members trailer) →
    ∃ files, List.Forall₂ (Extracted mem) files members ∧ ∀ fuel, members.length < fuel →
    cpioExtract mem fuel p gFiles = .ok (some (gFiles ++ files)) := by
  induction members with
  | nil =>
    intro p gFiles _ hlt _ h
    refine ⟨[], .nil, fun fuel hfuel => ?_⟩
    obtain ⟨n, rfl⟩ := Nat.exists_eq_add_one.2 (Nat.zero_lt_of_lt hfuel)
    rw [append_nil]
    exact cpioExtract_trailer h htrailer hlt n gFiles
  | cons m members ih =>
    intro p gFiles hp hlt hne h
    rw [encodeArchive, flatMap_cons, append_assoc] at hlt h
    rw [length_append] at hlt
    obtain ⟨hhere, hrest⟩ := holds_append.1 h
    have hnext : 4 ∣ p + m.encode.length := by
      rw [m.length_encode]
      exact Nat.dvd_add hp (Nat.dvd_add (dvd_length_pad4 _) (dvd_length_pad4 _))
    obtain ⟨files, hfiles, hrun⟩ := ih (p + m.encode.length)
      (gFiles ++ [m.fileAt p]) hnext (by rw [encodeArchive]; omega)
      (fun m' hm' => hne m' (mem_cons_of_mem m hm')) hrest
    refine ⟨m.fileAt p :: files, .cons (CpioMember.holds hhere).2 hfiles, fun fuel hfuel => ?_⟩
    obtain ⟨n, rfl⟩ := Nat.exists_eq_add_one.2 (Nat.zero_lt_of_lt hfuel)
    rw [length_cons, Nat.add_lt_add_iff_right] at hfuel
    rw [cpioExtract_member hhere (hne m mem_cons_self) hp (by omega), hrun n hfuel, append_assoc]
    rfl

end

/-- `cpio_init_g_files`. -/
def cpioInitGFiles : List CpioFile := []

/-- **Archives are extracted as they were written.** Every list of members that
is encoded in the newc format at an aligned address is found again by
`cpio_extract`, in order, with all header numbers, names and data. -/
theorem cpio_extract_encoded (members : List CpioMember) (trailer : CpioMember)
    (htrailer : trailer.name = trailerName)
    (hne : ∀ m ∈ members, m.name ≠ trailerName) (mem : Nat → UInt8) (addr : Nat)
    (haddr : 4 ∣ addr)
    (hlt : addr + (encodeArchive members trailer).length < 2 ^ 64)
    (hmem : Holds mem addr (encodeArchive members trailer)) :
    ∃ files, List.Forall₂ (Extracted mem) files members ∧ ∀ fuel, members.length < fuel →
        cpioExtract mem fuel addr cpioInitGFiles = .ok (some files) :=
  cpioExtract_members htrailer members addr [] haddr hlt hne hmem

/-- A member with numbers of its own. -/
def sampleMember (name data : List UInt8) (hnul : 0 ∉ name)
    (hlen : name.length + 1 < 2 ^ 32 ∧ data.length < 2 ^ 32) : CpioMember where
  header := ⟨1, 0x81A4, 2, 3, 4, 5, data.length, 6, 7, 8, 9, name.length + 1, 10⟩
  name := name
  data := data
  noNul := hnul
  namesize := rfl
  filesize := rfl
  fits := by simpa [CpioHeader.numbers] using hlen.symm

/-- Two members, with padding behind the names and the data. -/
def sampleMembers : List CpioMember :=
  [sampleMember [97] [1, 2, 3] (by decide) (by decide),
    sampleMember [98, 99] [4, 5] (by decide) (by decide)]

def sampleTrailer : CpioMember := sampleMember trailerName [] (by decide) (by decide)

def sampleArchive : List UInt8 := encodeArchive sampleMembers sampleTrailer

theorem cpio_extract_encoded_sample :
    ∃ files, List.Forall₂ (Extracted fun i => sampleArchive.getD i 0) files sampleMembers ∧
      ∀ fuel, 2 < fuel → cpioExtract (fun i => sampleArchive.getD i 0) fuel 0 cpioInitGFiles =
          .ok (some files) :=
  cpio_extract_encoded sampleMembers sampleTrailer
    rfl (by decide) _ 0 (by decide) (by decide +kernel) (by unfold Holds; decide +kernel)

end ChCore.Userland
