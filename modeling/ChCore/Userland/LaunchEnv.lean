import ChCore.Lib.Runs
import ChCore.Kernel.Base

/-!
# The environment page of a new process

`construct_init_env` (`userland/servers/procm/launch.c`) fills the static page
`init_env`, which `launch_process` copies to the stack of the new process. The
`memset` that is to clear the page has its arguments in the wrong order and
writes nothing, so a byte that a launch does not store is what the launches
before it have left there.
-/

namespace ChCore.Userland

open Kernel (Exec ok_bind)
open Lib.Runs

/-- What `construct_init_env` is given, with the fields of `struct
process_metadata` that it reads. -/
structure Launch where
  caps : List Int
  argv : List (List UInt8)
  phdrAddr : Nat
  phentsize : Nat
  phnum : Nat
  flags : Nat
  entry : Nat

/-- `*p++ = word`, or a string that is copied and whose address is the word. -/
inductive Put
  | word (w : Int)
  | str (s : List UInt8)

/-- The end of the stack of the main thread. -/
def stackTop : Nat := 0x500000800000

/-- `CHCORE_ARCH`. -/
def chcoreArch : List UInt8 := [97, 97, 114, 99, 104, 54, 52]

/-- What `construct_init_env` puts on the page, in its order. -/
def envPuts (l : Launch) : List Put :=
  -- `ENV_MAGIC`, and `ENV_NO_CAPS` if there are none
  .word 0x43484f53 ::
    (if l.caps = [] then [.word (-1)] else .word l.caps.length :: l.caps.map .word) ++
  .word l.argv.length :: l.argv.map .str ++
  -- the ends of `argv` and `envp`
  .word 0 :: .word 0 ::
  -- from `AT_SECURE` to `AT_HWCAP`
  ([23, 0, 6, 0x1000, 3, l.phdrAddr, 4, l.phentsize, 5, l.phnum, 8, l.flags, 9, l.entry,
    11, 1000, 12, 1000, 13, 1000, 14, 1000, 17, 100, 16, 0] : List Int).map .word ++
  -- `AT_PLATFORM`, `AT_RANDOM`, `AT_BASE` and `AT_NULL`
  [.word 15, .str chcoreArch, .word 25, .word (stackTop - 64), .word 7, .word 0, .word 0, .word 0]

/-- The bytes of a `u64`. -/
def wordBytes (w : Int) : List UInt8 :=
  (List.range 8).map fun i => UInt8.ofNat ((w % 2 ^ 64).toNat / 2 ^ (8 * i))

/-- Stores of bytes from an offset on. -/
def storesAt (offset : Nat) (bs : List UInt8) : List (Nat × UInt8) :=
  (bs.zipIdx offset).map Prod.swap

/-- The stores, with the offsets `p` and `str` and the room for strings. -/
def stores : List Put → Nat → Nat → Nat → Exec (List (Nat × UInt8))
  | [], _, _, _ => .ok []
  | .word w :: puts, p, str, left =>
    if p + 8 > 0x1000 then .error .outOfBounds
    else do return storesAt p (wordBytes w) ++ (← stores puts (p + 8) str left)
  | .str s :: puts, p, str, left =>
    -- `chcore_assert(str_bytes_left > l)`
    if left ≤ s.length then .error .bug
    else if p + 8 > 0x1000 then .error .outOfBounds
    else do
      return storesAt str (s ++ [0]) ++ storesAt p (wordBytes (stackTop - 0x1000 + str)) ++
        (← stores puts (p + 8) (str + s.length + 1) (left - (s.length + 1)))

def storeAll (page : Nat → UInt8) (ws : List (Nat × UInt8)) : Nat → UInt8 :=
  ws.foldl (fun page w => Function.update page w.1 w.2) page

/-- `construct_init_env`. -/
def constructInitEnv (page : Nat → UInt8) (l : Launch) : Exec (Nat → UInt8) := do
  return storeAll page (← stores (envPuts l) 0 0x800 0x800)

/-- The page after launches; the static page is zero at first. -/
def pageAfter : List Launch → Exec (Nat → UInt8) := run constructInitEnv fun _ => 0

/-! ## What a launch stores -/

/-- The words of a page, where the strings are put from `str` on. -/
def putWords : List Put → Nat → List Int
  | [], _ => []
  | .word w :: puts, str => w :: putWords puts str
  | .str s :: puts, str => (stackTop - 0x1000 + str) :: putWords puts (str + s.length + 1)

/-- The strings of a page with their ends. -/
def putStrings : List Put → List UInt8
  | [] => []
  | .word _ :: puts => putStrings puts
  | .str s :: puts => s ++ 0 :: putStrings puts

lemma mem_storesAt {offset x : Nat} {v : UInt8} {bs : List UInt8} :
    (x, v) ∈ storesAt offset bs ↔ offset ≤ x ∧ bs[x - offset]? = some v := by
  unfold storesAt
  rw [List.mem_map]
  constructor
  · rintro ⟨⟨w, y⟩, hmem, heq⟩
    cases heq
    exact List.mk_mem_zipIdx_iff_le_and_getElem?_sub.1 hmem
  · intro h
    exact ⟨(v, x), List.mk_mem_zipIdx_iff_le_and_getElem?_sub.2 h, rfl⟩

lemma getElem?_append_iff {as bs : List UInt8} {offset x : Nat} {v : UInt8} :
    offset ≤ x ∧ (as ++ bs)[x - offset]? = some v ↔
    (offset ≤ x ∧ as[x - offset]? = some v) ∨
    offset + as.length ≤ x ∧ bs[x - (offset + as.length)]? = some v := by
  rw [List.getElem?_append]
  split
  · constructor
    · exact .inl
    · rintro (h | ⟨h, -⟩)
      · exact h
      · omega
  rw [← Nat.sub_sub]
  constructor
  · rintro ⟨h, hv⟩
    exact .inr ⟨by omega, hv⟩
  · rintro (⟨-, hv⟩ | ⟨h, hv⟩)
    · rw [List.getElem?_eq_none (by omega)] at hv
      cases hv
    · exact ⟨by omega, hv⟩

lemma length_wordBytes (w : Int) : (wordBytes w).length = 8 := by simp [wordBytes]

/-- A launch stores its words and its strings, and nothing else. -/
lemma mem_stores (puts : List Put) : ∀ p str left ws, stores puts p str left = .ok ws → ∀ x v,
    ((x, v) ∈ ws ↔ (p ≤ x ∧ ((putWords puts str).flatMap wordBytes)[x - p]? = some v) ∨
    str ≤ x ∧ (putStrings puts)[x - str]? = some v) := by
  induction puts with
  | nil =>
    intro p str left ws hrun x v
    cases hrun
    simp [putWords, putStrings]
  | cons put puts ih =>
    intro p str left ws hrun x v
    cases put with
    | word w =>
      rw [stores] at hrun
      split at hrun
      · cases hrun
      obtain ⟨rest, hrest, hws⟩ := Kernel.bind_eq_ok.1 hrun
      cases hws
      rw [List.mem_append, mem_storesAt, ih _ _ _ _ hrest, putWords, putStrings,
        List.flatMap_cons, getElem?_append_iff, length_wordBytes, or_assoc]
    | str s =>
      rw [stores] at hrun
      split at hrun
      · cases hrun
      split at hrun
      · cases hrun
      obtain ⟨rest, hrest, hws⟩ := Kernel.bind_eq_ok.1 hrun
      cases hws
      have hend : s ++ 0 :: putStrings puts = (s ++ [0]) ++ putStrings puts := by simp
      have hlen : (s ++ [0]).length = s.length + 1 := by simp
      rw [List.mem_append, List.mem_append, ih _ _ _ _ hrest, putWords, putStrings, hend]
      generalize s ++ [0] = bytes at hlen ⊢
      rw [mem_storesAt, mem_storesAt, List.flatMap_cons, getElem?_append_iff, getElem?_append_iff,
        length_wordBytes, hlen, ← Nat.add_assoc]
      tauto

/-- A byte of the page is what a store has put there, or what it was. -/
lemma storeAll_cases (ws : List (Nat × UInt8)) : ∀ (page : Nat → UInt8) (x : Nat),
    (x, storeAll page ws x) ∈ ws ∨ x ∉ ws.map Prod.fst ∧ storeAll page ws x = page x := by
  induction ws with
  | nil => exact fun page x => .inr ⟨List.not_mem_nil, rfl⟩
  | cons w ws ih =>
    intro page x
    rcases ih (Function.update page w.1 w.2) x with hmem | ⟨hnot, hval⟩
    · exact .inl (List.mem_cons_of_mem _ hmem)
    change storeAll page (w :: ws) x = _ at hval
    by_cases hx : x = w.1
    · rw [hx, Function.update_self] at hval
      rw [hx, hval]
      exact .inl List.mem_cons_self
    · rw [Function.update_of_ne hx] at hval
      refine .inr ⟨?_, hval⟩
      rw [List.map_cons, List.mem_cons]
      exact not_or.2 ⟨hx, hnot⟩

lemma storeAll_eq_iff (ws : List (Nat × UInt8)) : ∀ page page' : Nat → UInt8,
    storeAll page ws = storeAll page' ws ↔ ∀ x, x ∉ ws.map Prod.fst → page x = page' x := by
  induction ws with
  | nil => exact fun page page' => by simp [storeAll, funext_iff]
  | cons w ws ih =>
    intro page page'
    refine (ih _ _).trans (forall_congr' fun x => ?_)
    by_cases hx : x = w.1
    · simp [hx]
    · simp [hx]

/-! ## How long the words and the strings are -/

/-- The number of words that depends on the launch. -/
def Launch.words (l : Launch) : Nat := l.caps.length + l.argv.length

/-- The bytes of the arguments with their ends. -/
def Launch.strBytes (l : Launch) : Nat := (l.argv.map fun s => s.length + 1).sum

lemma putStrings_append (as bs : List Put) :
    putStrings (as ++ bs) = putStrings as ++ putStrings bs := by
  induction as with
  | nil => rfl
  | cons a as ih =>
    cases a with
    | word w => exact ih
    | str s => simp [putStrings, ih]

lemma putWords_append (as bs : List Put) : ∀ str, ∃ str',
    putWords (as ++ bs) str = putWords as str ++ putWords bs str' := by
  induction as with
  | nil => exact fun str => ⟨str, rfl⟩
  | cons a as ih =>
    intro str
    cases a with
    | word w =>
      obtain ⟨str', h⟩ := ih str
      exact ⟨str', congrArg (w :: ·) h⟩
    | str s =>
      obtain ⟨str', h⟩ := ih (str + s.length + 1)
      exact ⟨str', congrArg (_ :: ·) h⟩

lemma length_putWords (puts : List Put) : ∀ str,
    ((putWords puts str).flatMap wordBytes).length = 8 * puts.length := by
  induction puts with
  | nil => exact fun _ => rfl
  | cons put puts ih =>
    intro str
    cases put with
    | word w | str s =>
      rw [putWords, List.flatMap_cons, List.length_append, length_wordBytes, ih, List.length_cons]
      omega

lemma putStrings_words (ws : List Int) : putStrings (ws.map .word) = [] := by
  induction ws with
  | nil => rfl
  | cons w ws ih => exact ih

lemma putStrings_strs (argv : List (List UInt8)) :
    (putStrings (argv.map .str)).length = (argv.map fun s => s.length + 1).sum := by
  induction argv with
  | nil => rfl
  | cons s argv ih =>
    simp only [List.map_cons, putStrings, List.length_append, List.length_cons, ih, List.sum_cons]
    omega

/-- The words end with `AT_BASE` and 31 bytes of zeros. -/
lemma envWords_end (l : Launch) (str : Nat) :
    ((putWords (envPuts l) str).flatMap wordBytes).length = 8 * (l.words + 39) ∧
    ∃ init, (putWords (envPuts l) str).flatMap wordBytes = init ++ 7 :: List.replicate 31 0 := by
  constructor
  · rw [length_putWords]
    unfold envPuts Launch.words
    split
    · rename_i hcaps
      simp [hcaps]
    · simp
      omega
  obtain ⟨init, hputs⟩ : ∃ init, envPuts l = init ++ [.word 7, .word 0, .word 0, .word 0] :=
    ⟨_ ++ [.word 15, .str chcoreArch, .word 25, .word (stackTop - 64)],
      by rw [List.append_assoc]; rfl⟩
  obtain ⟨str', happ⟩ := putWords_append init [.word 7, .word 0, .word 0, .word 0] str
  rw [hputs, happ, List.flatMap_append]
  exact ⟨_, rfl⟩

/-- The strings end with the last letter of `CHCORE_ARCH` and a zero. -/
lemma envStrings_end (l : Launch) : (putStrings (envPuts l)).length = l.strBytes + 8 ∧
    ∃ init, putStrings (envPuts l) = init ++ 52 :: List.replicate 1 0 := by
  have hputs : putStrings (envPuts l) = putStrings (l.argv.map .str) ++ (chcoreArch ++ [0]) := by
    unfold envPuts
    rw [putStrings_append, putStrings_append, putStrings_append]
    split <;> simp [putStrings, putStrings_words]
  rw [hputs]
  constructor
  · rw [List.length_append, putStrings_strs]
    rfl
  · exact ⟨putStrings (l.argv.map .str) ++ chcoreArch.take 6, by rw [List.append_assoc]; rfl⟩

/-- Bytes that end with zeros are zero from a position on if and only if they are not longer. -/
lemma zeros_from_iff {bytes init : List UInt8} {c : UInt8} {k len : Nat} (hc : c ≠ 0)
    (hbytes : bytes = init ++ c :: List.replicate k 0) :
    (∀ y v, len ≤ y → bytes[y]? = some v → v = 0) ↔ bytes.length ≤ len + k := by
  have hlength : bytes.length = init.length + 1 + k := by simp [hbytes]; omega
  constructor
  · intro hzero
    by_contra hlong
    refine hc (hzero init.length c (by omega) ?_)
    rw [hbytes, List.getElem?_append_right le_rfl]
    simp
  · intro hle y v hy hv
    rw [hbytes, List.getElem?_append_right (by omega),
      show y - init.length = (y - init.length - 1) + 1 by omega, List.getElem?_cons_succ] at hv
    exact List.eq_of_mem_replicate (List.mem_of_getElem? hv)

/-- The offsets that a launch stores to. -/
def Launch.stored (l : Launch) (x : Nat) : Prop :=
  x < 8 * (l.words + 39) ∨ 0x800 ≤ x ∧ x < 0x800 + (l.strBytes + 8)

section

variable {b l : Launch} {ws : List (Nat × UInt8)}

lemma mem_envStores (hws : stores (envPuts l) 0 0x800 0x800 = .ok ws) (x : Nat) (v : UInt8) :
    (x, v) ∈ ws ↔ ((putWords (envPuts l) 0x800).flatMap wordBytes)[x]? = some v ∨
    0x800 ≤ x ∧ (putStrings (envPuts l))[x - 0x800]? = some v := by
  rw [mem_stores _ _ _ _ _ hws, Nat.sub_zero]
  simp

lemma stored_iff (hws : stores (envPuts l) 0 0x800 0x800 = .ok ws) (x : Nat) :
    x ∈ ws.map Prod.fst ↔ l.stored x := by
  have hmem : x ∈ ws.map Prod.fst ↔ ∃ v, (x, v) ∈ ws := by simp
  have hlt (bytes : List UInt8) (y : Nat) : (∃ v, bytes[y]? = some v) ↔ y < bytes.length := by
    rw [← Option.isSome_iff_exists, isSome_getElem?]
  simp only [hmem, mem_envStores hws, exists_or, exists_and_left, hlt, (envWords_end l 0x800).1,
    (envStrings_end l).1]
  unfold Launch.stored
  omega

/-- What an earlier launch stores where the launch `l` does not is zero. -/
def LeavesNothing (b l : Launch) : Prop := b.words ≤ l.words + 3 ∧ b.strBytes ≤ l.strBytes + 1

lemma leavesNothing_iff : LeavesNothing b l ↔
    (∀ y v, 8 * (l.words + 39) ≤ y →
    ((putWords (envPuts b) 0x800).flatMap wordBytes)[y]? = some v → v = 0) ∧
    ∀ y v, l.strBytes + 8 ≤ y → (putStrings (envPuts b))[y]? = some v → v = 0 := by
  obtain ⟨hwords, init, hinit⟩ := envWords_end b 0x800
  obtain ⟨hstrs, init', hinit'⟩ := envStrings_end b
  rw [zeros_from_iff (by decide) hinit, zeros_from_iff (by decide) hinit', hwords, hstrs]
  unfold LeavesNothing
  omega

/-- The page is zero where the launch `l` does not store. -/
def Clean (l : Launch) (page : Nat → UInt8) : Prop := ∀ x, ¬ l.stored x → page x = 0

lemma Clean.step {page page' : Nat → UInt8} (hclean : Clean l page) (hb : LeavesNothing b l)
    (hstep : constructInitEnv page b = .ok page') : Clean l page' := by
  obtain ⟨ws, hws, hpage⟩ := Kernel.bind_eq_ok.1 hstep
  cases hpage
  obtain ⟨hwords, hstrs⟩ := leavesNothing_iff.1 hb
  intro x hx
  obtain ⟨hword, hstr⟩ := not_or.1 hx
  rcases storeAll_cases ws page x with hmem | ⟨-, hsame⟩
  · rcases (mem_envStores hws x _).1 hmem with hval | ⟨hle, hval⟩
    · exact hwords x _ (by omega) hval
    · exact hstrs _ _ (by omega) hval
  · rw [hsame]
    exact hclean x hx

/-- Launches that leave nothing behind keep the page clean. -/
lemma Clean.run {before : List Launch} {page : Nat → UInt8} (hpage : pageAfter before = .ok page)
    (hbefore : ∀ b ∈ before, LeavesNothing b l) : Clean l page :=
  run_preserves_of_forall (fun _ _ _ => Clean.step) before _ page (fun _ _ => rfl) hbefore hpage

/-- The launch `l` makes the same page of two clean ones. -/
lemma Clean.same {page page' : Nat → UInt8} (h : Clean l page) (h' : Clean l page') :
    constructInitEnv page l = constructInitEnv page' l := by
  unfold constructInitEnv
  cases hws : stores (envPuts l) 0 0x800 0x800 with
  | error e => rfl
  | ok ws =>
    simp only [ok_bind]
    refine congrArg _ ((storeAll_eq_iff ws page page').2 fun x hx => ?_)
    rw [stored_iff hws] at hx
    rw [h x hx, h' x hx]

lemma pageAfter_append {before : List Launch} {page : Nat → UInt8}
    (hpage : pageAfter before = .ok page) (l : Launch) :
    pageAfter (before ++ [l]) = constructInitEnv page l := by
  unfold pageAfter at *
  rw [run_append hpage, run]
  cases constructInitEnv page l <;> rfl

/-- If a launch does not see the one before it, then that one left nothing behind. The words
of both are in the first half of the page. -/
lemma leavesNothing_of_same {pageB : Nat → UInt8} (hb : b.words ≤ 217) (hl : l.words ≤ 217)
    (hpage : pageAfter [b] = .ok pageB) (hclean : Clean l pageB) : LeavesNothing b l := by
  obtain ⟨page, hstep, hrest⟩ := run_cons_inv hpage
  cases hrest
  obtain ⟨ws, hws, hstores⟩ := Kernel.bind_eq_ok.1 hstep
  cases hstores
  have hlen := (envWords_end b 0x800).1
  -- a byte that is stored is on the page, and it is the only one stored there
  have hthere : ∀ x v, (x, v) ∈ ws → ¬ l.stored x → (x, (0 : UInt8)) ∈ ws := by
    intro x v hmem hx
    rcases storeAll_cases ws (fun _ => 0) x with hsame | ⟨hnot, -⟩
    · rwa [hclean x hx] at hsame
    · exact absurd (List.mem_map_of_mem (f := Prod.fst) hmem) hnot
  refine leavesNothing_iff.2 ⟨fun y v hy hv => ?_, fun y v hy hv => ?_⟩
  · have hlt := (List.getElem?_eq_some_iff.1 hv).1
    have hzero := hthere y v ((mem_envStores hws y v).2 (.inl hv)) (by unfold Launch.stored; omega)
    rcases (mem_envStores hws y 0).1 hzero with hval | ⟨hle, -⟩
    · rw [hv] at hval
      exact Option.some.inj hval
    · omega
  · have hat : 0x800 ≤ 0x800 + y ∧ (putStrings (envPuts b))[0x800 + y - 0x800]? = some v :=
      ⟨by omega, by rwa [Nat.add_sub_cancel_left]⟩
    have hzero := hthere (0x800 + y) v ((mem_envStores hws _ v).2 (.inr hat))
      (by unfold Launch.stored; omega)
    rcases (mem_envStores hws _ 0).1 hzero with hval | ⟨-, hval⟩
    · have hlt := (List.getElem?_eq_some_iff.1 hval).1
      omega
    · rw [Nat.add_sub_cancel_left, hv] at hval
      exact Option.some.inj hval

end

/-- **What a new process sees.** After two sequences of launches the same launch gives the same
page, if every earlier launch has at most three arguments and capabilities more than the last
one and its arguments have at most one byte more: `AT_BASE` and the name of the platform are
then overwritten. For a single earlier launch the condition is exact, as long as the words of
the two stay in the first half of the page. -/
theorem env_page_same_iff (l : Launch) :
    (∀ before before' page page', pageAfter before = .ok page → pageAfter before' = .ok page' →
      (∀ b ∈ before ++ before', LeavesNothing b l) →
      pageAfter (before ++ [l]) = pageAfter (before' ++ [l])) ∧
    ∀ b page, b.words ≤ 217 → l.words ≤ 217 → pageAfter [b, l] = .ok page →
      (pageAfter [b, l] = pageAfter [l] ↔ LeavesNothing b l) := by
  constructor
  · intro before before' page page' hpage hpage' hall
    rw [pageAfter_append hpage, pageAfter_append hpage']
    exact (Clean.run hpage fun b hb => hall b (List.mem_append_left _ hb)).same
      (Clean.run hpage' fun b hb => hall b (List.mem_append_right _ hb))
  intro b page hb hl hpage
  obtain ⟨pageB, hpageB, hlast⟩ := run_cons_inv hpage
  have hfirst : pageAfter [b] = .ok pageB := run_cons_ok [] hpageB
  rw [show [b, l] = [b] ++ [l] from rfl, pageAfter_append hfirst,
    show [l] = [] ++ [l] from rfl, pageAfter_append (show pageAfter [] = _ from rfl)]
  constructor
  · intro heq
    obtain ⟨page', hstep, hrest⟩ := run_cons_inv hlast
    obtain ⟨ws, hws, -⟩ := Kernel.bind_eq_ok.1 hstep
    unfold constructInitEnv at heq
    rw [hws] at heq
    refine leavesNothing_of_same hb hl hfirst fun x hx => ?_
    rw [← stored_iff hws] at hx
    exact (storeAll_eq_iff ws _ _).1 (Except.ok.inj heq) x hx
  · intro hleaves
    exact (Clean.run hfirst (by simpa using hleaves)).same fun _ _ => rfl

/-- No capabilities and no arguments. -/
def plainLaunch : Launch := ⟨[], [], 0, 0, 0, 0, 0⟩

/-- `ls` with two capabilities, and then `ps`. -/
def lsLaunch : Launch := { plainLaunch with caps := [3, 4], argv := [[108, 115]] }

def psLaunch : Launch := { plainLaunch with argv := [[112, 115]] }

theorem env_page_same_again : pageAfter [lsLaunch, psLaunch] = pageAfter [psLaunch] := by
  obtain ⟨page, hpage, -⟩ : ∃ page, pageAfter [lsLaunch, psLaunch] = .ok page ∧ True := by
    decide +kernel
  exact ((env_page_same_iff _).2 _ page (by decide) (by decide) hpage).2 ⟨by decide, by decide⟩

/-- An argument of the process before. -/
theorem env_page_leaks : ∃ page page',
    pageAfter [{ plainLaunch with argv := [List.replicate 16 115] }, plainLaunch] = .ok page ∧
    pageAfter [plainLaunch] = .ok page' ∧ page 0x808 = 115 ∧ page' 0x808 = 0 := by
  obtain ⟨page, hrun, page', hrun', hbytes⟩ : ∃ page, pageAfter
      [{ plainLaunch with argv := [List.replicate 16 115] }, plainLaunch] = .ok page ∧
      ∃ page', pageAfter [plainLaunch] = .ok page' ∧ page 0x808 = 115 ∧ page' 0x808 = 0 := by
    decide +kernel
  exact ⟨page, page', hrun, hrun', hbytes⟩

end ChCore.Userland
