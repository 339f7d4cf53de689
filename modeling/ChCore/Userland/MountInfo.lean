import ChCore.Userland.TmpfsDir

/-!
# Mount points

`mount_info.c` of the file-system manager in `userland/servers/fsm`, and
`strip_path` of its `main.c`. A mount point names the server of a file system
by its capability. Strings are lists of bytes without a zero byte.
-/

namespace ChCore.Userland

open List

open Kernel (Exec)

/-- `struct mount_point_info_node`. -/
structure MountPoint where
  fsCap : Nat
  path : List UInt8
  pathLen : Nat
  deriving DecidableEq, Repr

/-- `strncmp(a, b, n) == 0`. -/
def strncmpEq : Nat → List UInt8 → List UInt8 → Bool
  | 0, _, _ => true
  | _ + 1, [], [] => true
  | n + 1, c :: a, d :: b => c == d && strncmpEq n a b
  | _ + 1, _, _ => false

/-- `mount_point_match`. -/
def mountPointMatch (mp : MountPoint) (path : List UInt8) : Bool :=
  if mp.pathLen = 1 ∧ path.head? = some slash then true
  else if strncmpEq mp.pathLen mp.path path = false then false
  else if path.length = mp.pathLen then true
  else path.getD mp.pathLen 0 = slash

/-- The loop of `get_mount_point`. -/
def mountPointLoop (path : List UInt8) :
    List MountPoint → Nat → Option MountPoint → Option MountPoint
  | [], _, matchedFs => matchedFs
  | iter :: infos, matchLenMax, matchedFs =>
    if iter.pathLen ≤ path.length ∧ iter.pathLen > matchLenMax ∧ mountPointMatch iter path then
      mountPointLoop path infos iter.pathLen (some iter)
    else mountPointLoop path infos matchLenMax matchedFs

/-- `get_mount_point`. -/
def getMountPoint (infos : List MountPoint) (path : List UInt8) : Exec MountPoint :=
  match mountPointLoop path infos 0 none with
  | none => .error .bug
  | some mp => .ok mp

/-- `strip_path`. -/
def stripPath (mp : MountPoint) (path : List UInt8) : List UInt8 := if mp.path ≠ [slash] then
    let lenAfterStrip : Int := path.length - mp.pathLen
    if lenAfterStrip = 0 then [slash]
    else (path.drop mp.pathLen).take lenAfterStrip.toNat
  else path

/-! ## Paths that a mount point covers -/

/-- The mount path is the root, or the path, or a part of it that ends at a
component. -/
def Covers (mount path : List UInt8) : Prop :=
  mount = [slash] ∨ mount = path ∨ ∃ rest, path = mount ++ slash :: rest

/-- A mount path as `fsm_mount_fs` accepts it, with its length. -/
structure MountPoint.Valid (mp : MountPoint) : Prop where
  len : mp.pathLen = mp.path.length
  abs : mp.path.head? = some slash

instance (mp : MountPoint) : Decidable mp.Valid :=
  decidable_of_iff (mp.pathLen = mp.path.length ∧ mp.path.head? = some slash)
    ⟨fun h => ⟨h.1, h.2⟩, fun h => ⟨h.len, h.abs⟩⟩

lemma strncmpEq_iff (a : List UInt8) :
    ∀ b, a.length ≤ b.length → (strncmpEq a.length a b = true ↔ a <+: b) := by
  induction a with
  | nil =>
    intro b _
    exact iff_of_true (by cases b <;> rfl) nil_prefix
  | cons c a ih =>
    intro b hlen
    cases b with
    | nil => simp at hlen
    | cons d b =>
      have hle : a.length ≤ b.length := by simpa using hlen
      rw [length_cons, strncmpEq, cons_prefix_cons, Bool.and_eq_true, beq_iff_eq, ih b hle]

/-- For a valid mount point the test of the loop is `Covers`. -/
lemma matches_iff_covers {mp : MountPoint} (hmp : mp.Valid)
    {path : List UInt8} (habs : path.head? = some slash) :
    (mp.pathLen ≤ path.length ∧ mountPointMatch mp path = true) ↔ Covers mp.path path := by
  unfold mountPointMatch Covers
  rw [hmp.len]
  by_cases hroot : mp.path.length = 1
  · -- a path of one character that starts with the separator is the root
    have hslash : mp.path = [slash] := by
      obtain ⟨c, hc⟩ := length_eq_one_iff.1 hroot
      have hhead := hmp.abs
      rw [hc] at hhead ⊢
      cases hhead
      rfl
    have hpos : 1 ≤ path.length := by
      cases path with
      | nil => cases habs
      | cons c path => simp
    rw [if_pos ⟨hroot, habs⟩, hroot]
    exact iff_of_true ⟨hpos, rfl⟩ (.inl hslash)
  have hne : mp.path ≠ [slash] := by
    intro h
    rw [h] at hroot
    exact hroot rfl
  rw [if_neg fun h => hroot h.1]
  constructor
  · rintro ⟨hlen, hmatch⟩
    cases hcmp : strncmpEq mp.path.length mp.path path with
    | false =>
      rw [hcmp] at hmatch
      cases hmatch
    | true =>
      obtain ⟨rest, rfl⟩ := (strncmpEq_iff _ _ hlen).1 hcmp
      rw [hcmp, if_neg (by decide)] at hmatch
      cases rest with
      | nil => exact .inr (.inl (append_nil _).symm)
      | cons c rest =>
        rw [if_neg (by simp)] at hmatch
        have hc : c = slash := by simpa using hmatch
        exact .inr (.inr ⟨rest, by rw [hc]⟩)
  · rintro (h | h | ⟨rest, rfl⟩)
    · exact absurd h hne
    · have hcmp : strncmpEq mp.path.length mp.path path = true :=
        (strncmpEq_iff _ _ (by rw [h])).2 (h ▸ prefix_refl _)
      rw [hcmp, if_neg (by decide), if_pos (by rw [h])]
      exact ⟨by rw [h], rfl⟩
    have hle : mp.path.length ≤ (mp.path ++ slash :: rest).length := by simp
    have hcmp := (strncmpEq_iff _ _ hle).2 (prefix_append _ _)
    rw [hcmp, if_neg (by decide), if_neg (by simp)]
    exact ⟨hle, by simp⟩

/-! ## The longest mount point -/

/-- The loop keeps what it has found, or finds the first of the longest mount
points behind it that are longer. -/
lemma mountPointLoop_spec (path : List UInt8) (infos : List MountPoint) :
    ∀ (matchLenMax : Nat) (matchedFs : Option MountPoint),
      let Match (mp : MountPoint) := mp.pathLen ≤ path.length ∧ mountPointMatch mp path = true
      (mountPointLoop path infos matchLenMax matchedFs = matchedFs ∧
        ∀ mp ∈ infos, Match mp → mp.pathLen ≤ matchLenMax) ∨
      ∃ newer mp older, infos = newer ++ mp :: older ∧
        mountPointLoop path infos matchLenMax matchedFs = some mp ∧ Match mp ∧
        matchLenMax < mp.pathLen ∧
        (∀ m ∈ newer, Match m → m.pathLen < mp.pathLen) ∧
        ∀ m ∈ older, Match m → m.pathLen ≤ mp.pathLen := by
  dsimp only
  induction infos with
  | nil =>
    intro matchLenMax matchedFs
    exact .inl ⟨rfl, nofun⟩
  | cons iter infos ih =>
    intro matchLenMax matchedFs
    rw [mountPointLoop]
    by_cases htest : iter.pathLen ≤ path.length ∧ iter.pathLen > matchLenMax ∧
        mountPointMatch iter path = true
    · rw [if_pos htest]
      obtain ⟨hlen, hlonger, hmatch⟩ := htest
      rcases ih iter.pathLen (some iter) with ⟨hkeep, hrest⟩ |
        ⟨newer, mp, older, hsplit, hfound, hmp, hmax, hnewer, holder⟩
      · exact .inr ⟨[], iter, infos, rfl, hkeep, ⟨hlen, hmatch⟩, hlonger, nofun, hrest⟩
      refine .inr ⟨iter :: newer, mp, older, by rw [hsplit]; rfl, hfound,
        hmp, lt_trans hlonger hmax, ?_, holder⟩
      intro m hm hmm
      rcases mem_cons.1 hm with rfl | hm
      · exact hmax
      · exact hnewer m hm hmm
    rw [if_neg htest]
    -- an iteration that fails the test matches nothing longer
    have hiter : iter.pathLen ≤ path.length ∧
        mountPointMatch iter path = true → iter.pathLen ≤ matchLenMax := by
      rintro ⟨hlen, hmatch⟩
      by_contra hlonger
      exact htest ⟨hlen, Nat.lt_of_not_le hlonger, hmatch⟩
    rcases ih matchLenMax matchedFs with ⟨hkeep, hrest⟩ |
      ⟨newer, mp, older, hsplit, hfound, hmp, hmax, hnewer, holder⟩
    · refine .inl ⟨hkeep, ?_⟩
      intro m hm hmm
      rcases mem_cons.1 hm with rfl | hm
      · exact hiter hmm
      · exact hrest m hm hmm
    refine .inr ⟨iter :: newer, mp, older, by rw [hsplit]; rfl, hfound, hmp, hmax, ?_, holder⟩
    intro m hm hmm
    rcases mem_cons.1 hm with rfl | hm
    · exact lt_of_le_of_lt (hiter hmm) hmax
    · exact hnewer m hm hmm

/-- What `strip_path` leaves of a path that the mount point covers. -/
lemma stripPath_spec {mp : MountPoint} (hmp : mp.Valid) {path : List UInt8}
    (habs : path.head? = some slash) (hcovers : Covers mp.path path) :
    (stripPath mp path).head? = some slash ∧ (mp.path = [slash] → stripPath mp path = path) ∧
    (mp.path ≠ [slash] → mp.path ++ stripPath mp path = path ∨
    path = mp.path ∧ stripPath mp path = [slash]) := by
  unfold stripPath
  rw [hmp.len]
  by_cases hroot : mp.path = [slash]
  · rw [if_neg (not_not.2 hroot)]
    exact ⟨habs, fun _ => rfl, fun h => absurd hroot h⟩
  rw [if_pos hroot]
  rcases hcovers with h | h | ⟨rest, rfl⟩
  · exact absurd h hroot
  · dsimp only
    rw [if_pos (by rw [h]; omega)]
    exact ⟨rfl, fun h' => absurd h' hroot, fun _ => .inr ⟨h.symm, rfl⟩⟩
  have hlen : ((mp.path ++ slash :: rest).length : Int) - mp.path.length = rest.length + 1 := by
    rw [length_append, length_cons]
    omega
  dsimp only
  rw [hlen, if_neg (by omega), drop_left,
    show ((rest.length : Int) + 1).toNat = (slash :: rest).length from by
      rw [length_cons]
      omega, take_length]
  exact ⟨rfl, fun h => absurd h hroot, fun _ => .inl rfl⟩

/-- **The longest mount point.** In a table with the root, whose mount paths
start with the separator, every absolute path gets the first of the longest
mount points that cover it (new mount points are added in front), and
`strip_path` then cuts the mount path off. -/
theorem get_mount_point_longest (infos : List MountPoint)
    (hvalid : ∀ mp ∈ infos, mp.Valid) (hroot : ∃ mp ∈ infos, mp.path = [slash])
    (path : List UInt8) (habs : path.head? = some slash) :
    ∃ newer mp older, infos = newer ++ mp :: older ∧
      getMountPoint infos path = .ok mp ∧ Covers mp.path path ∧
      (∀ m ∈ newer, Covers m.path path → m.path.length < mp.path.length) ∧
      (∀ m ∈ older, Covers m.path path → m.path.length ≤ mp.path.length) ∧
      (stripPath mp path).head? = some slash ∧
      (mp.path = [slash] → stripPath mp path = path) ∧
      (mp.path ≠ [slash] → mp.path ++ stripPath mp path = path ∨
        path = mp.path ∧ stripPath mp path = [slash]) := by
  have hlen : ∀ m ∈ infos, m.pathLen = m.path.length := fun m hm => (hvalid m hm).len
  have hmatch : ∀ m ∈ infos, Covers m.path path →
      m.pathLen ≤ path.length ∧ mountPointMatch m path = true :=
    fun m hm => (matches_iff_covers (hvalid m hm) habs).2
  rcases mountPointLoop_spec path infos 0 none with ⟨-, hnone⟩ |
    ⟨newer, mp, older, hsplit, hfound, hmp, -, hnewer, holder⟩
  · -- the root is found at least
    obtain ⟨mp, hmem, hpath⟩ := hroot
    have hzero := hnone mp hmem (hmatch mp hmem (.inl hpath))
    rw [hlen mp hmem, hpath] at hzero
    cases hzero
  have hmem : mp ∈ infos := by
    rw [hsplit]
    exact mem_append_right _ (mem_cons_self ..)
  have hnew : ∀ m ∈ newer, m ∈ infos := by
    intro m hm
    rw [hsplit]
    exact mem_append_left _ hm
  have hold : ∀ m ∈ older, m ∈ infos := by
    intro m hm
    rw [hsplit]
    exact mem_append_right _ (mem_cons_of_mem _ hm)
  have hcovers := (matches_iff_covers (hvalid mp hmem) habs).1 hmp
  refine ⟨newer, mp, older, hsplit, by rw [getMountPoint, hfound], hcovers,
    ?_, ?_, stripPath_spec (hvalid mp hmem) habs hcovers⟩
  · intro m hm hm'
    have hlt := hnewer m hm (hmatch m (hnew m hm) hm')
    rwa [hlen m (hnew m hm), hlen mp hmem] at hlt
  · intro m hm hm'
    have hle := holder m hm (hmatch m (hold m hm) hm')
    rwa [hlen m (hold m hm), hlen mp hmem] at hle

/-- `/f` is mounted after the root. -/
def twoMounts : List MountPoint := [⟨2, bytes ['/', 'f'], 2⟩, ⟨1, [slash], 1⟩]

theorem get_mount_point_longest_two_mounts : getMountPoint twoMounts (bytes ['/', 'f', '/', 'x']) =
      .ok ⟨2, bytes ['/', 'f'], 2⟩ ∧
    ∃ mp, getMountPoint twoMounts (bytes ['/', 'f', '/', 'x']) = .ok mp ∧
      (stripPath mp (bytes ['/', 'f', '/', 'x'])).head? = some slash := by
  obtain ⟨newer, mp, older, -, hget, -, -, -, hhead, -⟩ :=
    get_mount_point_longest twoMounts (by decide) (by decide)
      (bytes ['/', 'f', '/', 'x']) (by decide)
  exact ⟨by decide, mp, hget, hhead⟩

end ChCore.Userland
