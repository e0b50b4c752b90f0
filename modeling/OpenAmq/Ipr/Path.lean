import OpenAmq.Icl
import OpenAmq.Lib.Split

/-!
# Path resolution

`ipr_path_resolve` removes the dots from a path in one pass. It keeps the last character that
was copied, and goes back over what it has written for each directory that is to be dropped.

* `resolve` — the pass over the characters
* `resolvedNames` — the names of the path, taken with a stack
* `resolves_iff` — for which paths the two agree
-/

namespace OpenAmq

open List

namespace Path

/-! ## The source -/

/-- `s_path_delimiter`, as it is under UNIX. -/
def pathDelimiter (delim : UInt8) : Bool := delim == 0x2F || delim == 0

/-- The pointer goes back over the delimiter and the name before it. -/
def dropDirectory (written : List UInt8) : List UInt8 :=
  (written.drop 1).dropWhile fun c => !pathDelimiter c

/-- One directory is dropped for each dot but the first, as long as there are any. -/
def dropDirectories : (nbrDots : Nat) → (written : List UInt8) → List UInt8
  | n + 2, written =>
    if written.length > 1 then dropDirectories (n + 1) (dropDirectory written) else written
  | _, written => written

/--
The loop over the characters of the old path. What is in the new path before `new_ptr` is
`written`, the last character first.
-/
def resolveLoop : (fuel : Nat) → (oldPath : List UInt8) → (lastChar : UInt8) →
    (written : List UInt8) → Option (List UInt8)
  | 0, _, _, _ => none
  | _ + 1, [], _, written => some written.reverse
  | fuel + 1, c :: rest, lastChar, written =>
    if pathDelimiter lastChar && c == 0x2E then
      let nbrDots := ((c :: rest).takeWhile (· == 0x2E)).length
      if pathDelimiter (((c :: rest).drop nbrDots).headD 0) then
        -- past the dots and past / if any
        resolveLoop fuel ((c :: rest).drop (nbrDots + 1)) lastChar (dropDirectories nbrDots written)
      else resolveLoop fuel rest c (c :: written)
    else resolveLoop fuel rest c (c :: written)

/-- `ipr_path_resolve` -/
def resolve (oldPath : CString) : Option (List UInt8) :=
  resolveLoop (oldPath.octets.length + 1) oldPath.octets 0x2F []

/-! ## What it is for -/

def Dots (name : List UInt8) : Prop := name ≠ [] ∧ ∀ c ∈ name, c = 0x2E

instance (name : List UInt8) : Decidable (Dots name) := inferInstanceAs (Decidable (_ ∧ _))

/-- The names of a path: all are directories but the last. -/
def names (path : List UInt8) : List (List UInt8) := path.splitOn 0x2F

/-- The path with these names. -/
def join (names : List (List UInt8)) : List UInt8 := [0x2F].intercalate names

/-- A directory name goes on the stack, dots take names from it. -/
def push (stack : List (List UInt8)) (name : List UInt8) : List (List UInt8) :=
  if Dots name then stack.drop (name.length - 1) else name :: stack

/-- The names that are left, when all directories are on the stack. -/
def finish (stack : List (List UInt8)) (last : List UInt8) : List (List UInt8) :=
  if Dots last then (stack.drop (last.length - 1)).reverse ++ [[]] else stack.reverse ++ [last]

/-- The names of a path, taken with a stack. -/
def resolvedNames (names : List (List UInt8)) : List (List UInt8) :=
  finish (names.dropLast.foldl push []) (names.getLastD [])

/-- Does the path start with a delimiter? -/
def Absolute (path : List UInt8) : Prop := path.head? = some 0x2F

instance (path : List UInt8) : Decidable (Absolute path) := inferInstanceAs (Decidable (_ = _))

/-- The resolved path. The root of an absolute path stays in front of the stack. -/
def resolved (path : List UInt8) : List UInt8 :=
  if Absolute path then join ([] :: resolvedNames (names path).tail)
  else join (resolvedNames (names path))

structure Resolves (oldPath newPath : List UInt8) : Prop where
  noDots : ∀ name ∈ names newPath, ¬Dots name
  absolute : Absolute newPath ↔ Absolute oldPath
  length : newPath.length ≤ oldPath.length
  stack : newPath = resolved oldPath

/-- No empty directory name comes when no names are left before it. -/
def Grounded (stack dirs : List (List UInt8)) : Prop :=
  ∀ before after, dirs = before ++ [] :: after → before.foldl push stack ≠ []

/-! ## The stack -/

variable {name dir root last : List UInt8} {stack : List (List UInt8)} (ds : List (List UInt8))
  (path : CString)

theorem push_dots (h : Dots name) (stack : List (List UInt8)) :
    push stack name = stack.drop (name.length - 1) := if_pos h

theorem push_name (h : ¬Dots name) (stack : List (List UInt8)) :
    push stack name = name :: stack := if_neg h

theorem mem_push {x : List UInt8} (hx : x ∈ push stack name) :
    x = name ∧ ¬Dots name ∨ x ∈ stack := by
  by_cases hd : Dots name
  · rw [push_dots hd] at hx
    exact .inr (mem_of_mem_drop hx)
  · rw [push_name hd] at hx
    exact (mem_cons.mp hx).imp_left fun h => ⟨h, hd⟩

theorem forall_mem_foldl_push {P : List UInt8 → Prop} (dirs : List (List UInt8)) :
    ∀ stack : List (List UInt8), (∀ name ∈ stack, P name) →
    (∀ name ∈ dirs, ¬Dots name → P name) → ∀ name ∈ dirs.foldl push stack, P name := by
  induction dirs with
  | nil => exact fun _ hstack _ => hstack
  | cons dir dirs ih =>
    intro stack hstack hdirs
    refine ih _ (fun name hname => ?_) fun name hname => hdirs name (mem_cons_of_mem _ hname)
    rcases mem_push hname with ⟨rfl, hd⟩ | hmem
    · exact hdirs name mem_cons_self hd
    · exact hstack name hmem

theorem grounded_cons {dirs : List (List UInt8)} :
    Grounded stack (dir :: dirs) ↔ (dir = [] → stack ≠ []) ∧ Grounded (push stack dir) dirs := by
  constructor
  · intro h
    refine ⟨?_, fun before after heq => ?_⟩
    · rintro rfl
      exact h [] dirs rfl
    · exact h (dir :: before) after (by rw [heq]; rfl)
  · rintro ⟨hdir, h⟩ before after heq
    cases before with
    | nil => exact hdir (cons.inj heq).1
    | cons first before =>
      obtain ⟨hfirst, htail⟩ := cons.inj heq
      rw [← hfirst]
      exact h before after htail

theorem grounded_or (dirs : List (List UInt8)) : ∀ stack, Grounded stack dirs ∨
    ∃ before after, dirs = before ++ [] :: after ∧ before.foldl push stack = [] ∧
      Grounded stack before := by
  induction dirs with
  | nil =>
    intro stack
    refine .inl fun before after heq => ?_
    cases before <;> cases heq
  | cons dir dirs ih =>
    intro stack
    by_cases hdir : dir = [] → stack ≠ []
    · rcases ih (push stack dir) with h | ⟨before, after, rfl, hrun, hbefore⟩
      · exact .inl (grounded_cons.mpr ⟨hdir, h⟩)
      · exact .inr ⟨dir :: before, after, rfl, hrun, grounded_cons.mpr ⟨hdir, hbefore⟩⟩
    · rw [Classical.not_imp, not_not] at hdir
      obtain ⟨rfl, rfl⟩ := hdir
      refine .inr ⟨[], dirs, rfl, rfl, fun before after heq => ?_⟩
      cases before <;> cases heq

/-! ## Joined names -/

/-- Directory names, each with its delimiter. -/
def dirs (stack : List (List UInt8)) : List UInt8 := stack.flatMap (· ++ [0x2F])

theorem join_append_singleton (xs : List (List UInt8)) (last : List UInt8) :
    join (xs ++ [last]) = dirs xs ++ last := by
  induction xs with
  | nil => simp [join, dirs]
  | cons x xs ih =>
    rw [cons_append, join, intercalate_cons_of_ne_nil (by simp), ← join, ih]
    simp [dirs]

/-! ## The loop, name by name -/

def written (root : List UInt8) (stack : List (List UInt8)) : List UInt8 :=
  (stack.flatMap fun name => 0x2F :: name.reverse) ++ root

/-- A name as it stands in a path. -/
def IsName (name : List UInt8) : Prop := ∀ c ∈ name, pathDelimiter c = false

theorem after_dots (hname : IsName name) (hd : ¬∀ c ∈ name, c = 0x2E) (tail : List UInt8) :
    pathDelimiter (((name ++ tail).drop
      ((name ++ tail).takeWhile (· == 0x2E)).length).headD 0) = false := by
  rw [Lib.drop_length_takeWhile, dropWhile_append]
  cases hrest : name.dropWhile (· == 0x2E) with
  | nil =>
    refine absurd (fun c hc => ?_) hd
    simpa using dropWhile_eq_nil_iff.mp hrest c hc
  | cons c rest =>
    have hmem : c ∈ name.dropWhile (· == 0x2E) := by
      rw [hrest]
      exact mem_cons_self
    exact hname c ((dropWhile_sublist _).subset hmem)

theorem loop_copy (name : List UInt8) : ∀ (tail : List UInt8) (l : UInt8) (w : List UInt8)
    (fuel : Nat), IsName name → (pathDelimiter l = true → ¬Dots name) →
    ∃ l', resolveLoop (fuel + name.length) (name ++ tail) l w =
      resolveLoop fuel tail l' (name.reverse ++ w) := by
  induction name with
  | nil => exact fun _ l _ _ _ _ => ⟨l, rfl⟩
  | cons c name ih =>
    intro tail l w fuel hname hl
    have hc : pathDelimiter c = false := hname c mem_cons_self
    have hrest : IsName name := fun d hd => hname d (mem_cons_of_mem _ hd)
    have hstep : resolveLoop (fuel + (c :: name).length) (c :: name ++ tail) l w =
        resolveLoop (fuel + name.length) (name ++ tail) c (c :: w) := by
      rw [length_cons, ← Nat.add_assoc, cons_append, resolveLoop]
      by_cases hdot : (pathDelimiter l && c == 0x2E) = true
      · have hdots : ¬∀ d ∈ c :: name, d = 0x2E := by
          rw [Bool.and_eq_true] at hdot
          exact fun h => hl hdot.1 ⟨cons_ne_nil _ _, h⟩
        have hafter := after_dots hname hdots tail
        rw [cons_append] at hafter
        rw [if_pos hdot]
        simp only [hafter, Bool.false_eq_true, if_false]
      · rw [if_neg hdot]
    obtain ⟨l', hrun⟩ := ih tail c (c :: w) fuel hrest (by simp [hc])
    exact ⟨l', by rw [hstep, hrun]; simp⟩

theorem loop_dots {name tail : List UInt8} {l : UInt8} (hl : pathDelimiter l = true)
    (hname : Dots name) (htail : pathDelimiter (tail.headD 0) = true) (w : List UInt8)
    (fuel : Nat) :
    resolveLoop (fuel + 1) (name ++ tail) l w =
      resolveLoop fuel (tail.drop 1) l (dropDirectories name.length w) := by
  have htake : (name ++ tail).takeWhile (· == 0x2E) = name := by
    rw [takeWhile_append_of_pos fun c hc => beq_iff_eq.mpr (hname.2 c hc)]
    cases tail with
    | nil => simp
    | cons c tail =>
      have hc : (c == 0x2E) = false := by
        rw [beq_eq_false_iff_ne]
        rintro rfl
        cases htail
      rw [takeWhile_cons, hc]
      simp
  obtain ⟨c, rest, rfl⟩ := exists_cons_of_ne_nil hname.1
  obtain rfl : c = 0x2E := hname.2 c mem_cons_self
  rw [cons_append, resolveLoop, if_pos (by simp [hl])]
  rw [cons_append] at htake
  simp only [htake]
  rw [← cons_append, drop_left, if_pos htail, ← drop_drop, drop_left]

/-- The root, or a first name that does not start with a delimiter, is at the bottom. -/
def Bottom (root : List UInt8) (stack : List (List UInt8)) : Prop :=
  root = [0x2F] ∨ root = [] ∧ ∀ name ∈ stack.getLast?, name ≠ []

theorem Bottom.drop (h : Bottom root stack) (n : Nat) : Bottom root (stack.drop n) := by
  refine h.imp_right fun ⟨hroot, hlast⟩ => ⟨hroot, fun name hname => hlast name ?_⟩
  rw [getLast?_drop] at hname
  split at hname
  · cases hname
  · exact hname

theorem Bottom.push (h : Bottom root stack) (hdir : root = [] → dir = [] → stack ≠ []) :
    Bottom root (push stack dir) := by
  by_cases hd : Dots dir
  · rw [push_dots hd]
    exact h.drop _
  · rw [push_name hd]
    refine h.imp_right fun ⟨hroot, hlast⟩ => ⟨hroot, ?_⟩
    cases stack with
    | nil =>
      rintro name ⟨⟩ hnil
      exact hdir hroot hnil rfl
    | cons x xs => simpa using hlast

/-- The root, or a first name that is no delimiter, stays at the bottom. -/
theorem Bottom.run : ∀ stack : List (List UInt8),
    Bottom root stack → (root = [] → Grounded stack ds) →
    Bottom root (ds.foldl Path.push stack) := by
  induction ds with
  | nil => exact fun stack hb _ => hb
  | cons dir ds ih =>
    intro stack hb hground
    exact ih _ (hb.push fun hroot => (grounded_cons.mp (hground hroot)).1)
      (fun hroot => (grounded_cons.mp (hground hroot)).2)

theorem written_cons (root name : List UInt8) (stack : List (List UInt8)) :
    written root (name :: stack) = 0x2F :: (name.reverse ++ written root stack) := by
  simp [written]

theorem dropDirectory_written (hname : IsName name) (hb : Bottom root stack) :
    dropDirectory (written root (name :: stack)) = written root stack := by
  have hpass : ∀ c ∈ name.reverse, (!pathDelimiter c) = true := by
    intro c hc
    rw [hname c (mem_reverse.mp hc)]
    rfl
  rw [written_cons, dropDirectory, drop_one, tail_cons, dropWhile_append_of_pos hpass]
  cases stack with
  | nil => rcases hb with rfl | ⟨rfl, -⟩ <;> rfl
  | cons x xs =>
    rw [written_cons]
    rfl

theorem one_lt_length_written (hb : Bottom root (name :: stack)) :
    1 < (written root (name :: stack)).length := by
  rw [written_cons]
  cases stack with
  | nil =>
    rcases hb with rfl | ⟨rfl, hlast⟩
    · simp [written]
    · have hpos := length_pos_iff.mpr (hlast name rfl)
      simp only [length_cons, length_append, length_reverse]
      omega
  | cons x xs =>
    rw [written_cons]
    simp only [length_cons, length_append]
    omega

theorem dropDirectories_written (n : Nat) : ∀ stack : List (List UInt8),
    (∀ name ∈ stack, IsName name) → Bottom root stack →
    dropDirectories (n + 1) (written root stack) = written root (stack.drop n) := by
  induction n with
  | zero => exact fun stack _ _ => rfl
  | succ n ih =>
    intro stack hnames hb
    cases stack with
    | nil =>
      have hshort : ¬1 < (written root []).length := by
        rcases hb with rfl | ⟨rfl, -⟩ <;> decide
      rw [dropDirectories, if_neg hshort, drop_nil]
    | cons name stack =>
      have hb' : Bottom root stack := hb.drop 1
      rw [dropDirectories, if_pos (one_lt_length_written hb),
        dropDirectory_written (hnames name mem_cons_self) hb',
        ih stack (fun x hx => hnames x (mem_cons_of_mem _ hx)) hb', drop_succ_cons]

/-! ## The run -/

theorem Bottom.reverse_root (h : Bottom root stack) : root.reverse = root := by
  rcases h with rfl | ⟨rfl, -⟩ <;> rfl

theorem reverse_written (root : List UInt8) (stack : List (List UInt8)) :
    (written root stack).reverse = root.reverse ++ dirs stack.reverse := by
  induction stack with
  | nil => simp [written, dirs]
  | cons name stack ih =>
    rw [written_cons, reverse_cons, reverse_append, ih, reverse_cons]
    simp [dirs]

theorem dropDirectories_dots (hd : Dots name) (hnames : ∀ name ∈ stack, IsName name)
    (hb : Bottom root stack) :
    dropDirectories name.length (written root stack) =
      written root (stack.drop (name.length - 1)) := by
  have hpos := length_pos_iff.mpr hd.1
  rw [← dropDirectories_written (name.length - 1) stack hnames hb, Nat.sub_add_cancel hpos]

theorem loop_dir {l : UInt8} (hdir : IsName dir) (hnames : ∀ name ∈ stack, IsName name)
    (hb : Bottom root stack) (hl : pathDelimiter l = true) (tail : List UInt8) (fuel : Nat) :
    ∃ fuel' l', fuel ≤ fuel' ∧ pathDelimiter l' = true ∧
      resolveLoop (fuel + dir.length + 1) (dir ++ 0x2F :: tail) l (written root stack) =
        resolveLoop fuel' tail l' (written root (push stack dir)) := by
  by_cases hd : Dots dir
  · refine ⟨fuel + dir.length, l, by omega, hl, ?_⟩
    rw [loop_dots hl hd rfl, dropDirectories_dots hd hnames hb, push_dots hd]
    rfl
  · obtain ⟨l', hrun⟩ := loop_copy dir (0x2F :: tail) l (written root stack) (fuel + 1) hdir
      (fun _ => hd)
    refine ⟨fuel, 0x2F, Nat.le_refl _, rfl, ?_⟩
    rw [Nat.add_right_comm, hrun, resolveLoop, if_neg (by simp), push_name hd, written_cons]

theorem loop_last {l : UInt8} (hlast : IsName last) (hnames : ∀ name ∈ stack, IsName name)
    (hb : Bottom root stack) (hl : pathDelimiter l = true) {fuel : Nat}
    (hfuel : last.length < fuel) :
    resolveLoop fuel last l (written root stack) = some (root ++ join (finish stack last)) := by
  by_cases hd : Dots last
  · have hpos := length_pos_iff.mpr hd.1
    obtain ⟨fuel, rfl⟩ : ∃ n, fuel = n + 2 := ⟨fuel - 2, by omega⟩
    have hrun := @loop_dots last [] l hl hd rfl (written root stack) (fuel + 1)
    rw [append_nil, dropDirectories_dots hd hnames hb] at hrun
    rw [hrun, drop_nil, resolveLoop, reverse_written, hb.reverse_root, finish, if_pos hd,
      join_append_singleton, append_nil]
  · obtain ⟨fuel, rfl⟩ : ∃ n, fuel = n + 1 + last.length := ⟨fuel - 1 - last.length, by omega⟩
    obtain ⟨l', hrun⟩ := loop_copy last [] l (written root stack) (fuel + 1) hlast (fun _ => hd)
    rw [append_nil] at hrun
    rw [hrun, resolveLoop, reverse_append, reverse_reverse, reverse_written,
      hb.reverse_root, finish, if_neg hd, join_append_singleton, append_assoc]

theorem loop_dirs {root : List UInt8} (ds : List (List UInt8)) : ∀ (stack : List (List UInt8))
    (l : UInt8) (tail : List UInt8) (fuel : Nat), (∀ dir ∈ ds, IsName dir) →
    (∀ name ∈ stack, IsName name) → Bottom root stack → (root = [] → Grounded stack ds) →
    pathDelimiter l = true → ∃ fuel' l', fuel ≤ fuel' ∧ pathDelimiter l' = true ∧
      resolveLoop (fuel + (dirs ds).length) (dirs ds ++ tail) l (written root stack) =
        resolveLoop fuel' tail l' (written root (ds.foldl push stack)) := by
  induction ds with
  | nil => exact fun stack l tail fuel _ _ _ _ hl => ⟨fuel, l, Nat.le_refl _, hl, rfl⟩
  | cons dir ds ih =>
    intro stack l tail fuel hds hnames hb hground hl
    have hdir : IsName dir := hds dir mem_cons_self
    obtain ⟨fuel1, l1, hfuel1, hl1, hrun1⟩ := loop_dir hdir hnames hb hl (dirs ds ++ tail)
      (fuel + (dirs ds).length)
    have hpush : ∀ name ∈ push stack dir, IsName name := by
      intro name hname
      rcases mem_push hname with ⟨rfl, -⟩ | hmem
      · exact hdir
      · exact hnames name hmem
    obtain ⟨fuel2, l2, hfuel2, hl2, hrun2⟩ := ih (push stack dir) l1 tail
      (fuel1 - (dirs ds).length) (fun d hd => hds d (mem_cons_of_mem _ hd)) hpush
      (hb.push fun hroot => (grounded_cons.mp (hground hroot)).1)
      (fun hroot => (grounded_cons.mp (hground hroot)).2) hl1
    refine ⟨fuel2, l2, by omega, hl2, ?_⟩
    rw [Nat.sub_add_cancel (by omega)] at hrun2
    have hdirs : dirs (dir :: ds) ++ tail = dir ++ 0x2F :: (dirs ds ++ tail) := by
      simp [dirs]
    have hlen : fuel + (dirs (dir :: ds)).length = fuel + (dirs ds).length + dir.length + 1 := by
      simp only [dirs, flatMap_cons, length_append, length_singleton]
      omega
    rw [hdirs, hlen, hrun1, hrun2, foldl_cons]

theorem resolvedNames_append_singleton (last : List UInt8) :
    resolvedNames (ds ++ [last]) = finish (ds.foldl push []) last := by
  simp [resolvedNames]

/-- **The path is resolved** from its root, or from the first of its names. -/
theorem loop_names {root last : List UInt8} {ds : List (List UInt8)} {l : UInt8} {fuel : Nat}
    (hnames : ∀ name ∈ ds ++ [last], IsName name) (hb : Bottom root [])
    (hground : root = [] → Grounded [] ds) (hl : pathDelimiter l = true)
    (hfuel : (join (ds ++ [last])).length < fuel) :
    resolveLoop fuel (join (ds ++ [last])) l root =
      some (root ++ join (resolvedNames (ds ++ [last]))) := by
  have hds : ∀ dir ∈ ds, IsName dir := fun dir h => hnames dir (mem_append_left _ h)
  have hlast : IsName last := hnames last (by simp)
  have hroot : written root [] = root := rfl
  rw [join_append_singleton, length_append] at hfuel
  obtain ⟨fuel', l', hfuel', hl', hrun⟩ := loop_dirs ds [] l last
    (fuel - (dirs ds).length) hds (by simp) hb hground hl
  rw [Nat.sub_add_cancel (by omega), hroot] at hrun
  have hstack : ∀ name ∈ ds.foldl push [], IsName name :=
    forall_mem_foldl_push ds [] (by simp) fun name h _ => hds name h
  rw [join_append_singleton, hrun, loop_last hlast hstack (hb.run ds [] hground) hl' (by omega),
    resolvedNames_append_singleton]

/-! ## The names of a path -/

theorem isName_of_mem_names (h : name ∈ names path.octets) : IsName name := by
  obtain ⟨hmem, hslash⟩ := Lib.mem_of_mem_splitOn h
  intro c hc
  have h1 : c ≠ 0x2F := fun h => hslash (h ▸ hc)
  have h0 : c ≠ 0 := fun h => path.noNul (h ▸ hmem c hc)
  simp [pathDelimiter, h1, h0]

theorem join_names (path : List UInt8) : join (names path) = path :=
  intercalate_splitOn 0x2F

theorem names_join {ns : List (List UInt8)} (hne : ns ≠ []) (h : ∀ name ∈ ns, IsName name) :
    names (join ns) = ns :=
  splitOn_intercalate 0x2F (fun name hname hslash => by cases h name hname _ hslash) hne

theorem exists_names (path : List UInt8) : ∃ ds last, names path = ds ++ [last] := by
  have hne : names path ≠ [] := splitOn_ne_nil _ _
  exact ⟨_, _, (dropLast_append_getLast hne).symm⟩

theorem names_of_absolute {path : List UInt8} (h : Absolute path) :
    ∃ rest, path = 0x2F :: rest ∧ names path = [] :: names rest := by
  cases path with
  | nil => cases h
  | cons c rest =>
    obtain rfl : c = 0x2F := Option.some.inj h
    exact ⟨rest, rfl, splitOn_append_cons_self_of_not_mem not_mem_nil rest⟩

def directories (path : List UInt8) : List (List UInt8) := (names path).dropLast

/-! ## The resolved names -/

theorem finish_ne_nil (stack : List (List UInt8)) (last : List UInt8) : finish stack last ≠ [] := by
  unfold finish
  split <;> simp

theorem finish_eq (stack : List (List UInt8)) (last : List UInt8) : ∃ n name,
    finish stack last = (stack.drop n).reverse ++ [name] ∧ ¬Dots name ∧
      (name = [] ∨ name = last) := by
  unfold finish
  split
  · exact ⟨last.length - 1, [], rfl, fun h => h.1 rfl, .inl rfl⟩
  · next hd => exact ⟨0, last, rfl, hd, .inr rfl⟩

theorem forall_mem_resolvedNames {P : List UInt8 → Prop} (hnil : P []) {ds : List (List UInt8)}
    (h : ∀ name ∈ ds ++ [last], ¬Dots name → P name) :
    ∀ name ∈ resolvedNames (ds ++ [last]), P name := by
  rw [resolvedNames_append_singleton]
  obtain ⟨n, left, heq, hd, hleft⟩ := finish_eq (ds.foldl push []) last
  rw [heq]
  intro name hname
  rcases mem_append.mp hname with hname | hname
  · refine forall_mem_foldl_push ds [] (by simp)
      (fun dir hdir => h dir (mem_append_left _ hdir)) name ?_
    exact mem_of_mem_drop (mem_reverse.mp hname)
  · obtain rfl := mem_singleton.mp hname
    rcases hleft with rfl | rfl
    · exact hnil
    · exact h name (by simp) hd

theorem length_dirs_drop_le (n : Nat) (stack : List (List UInt8)) :
    (dirs (stack.drop n)).length ≤ (dirs stack).length := by
  have hsplit : dirs stack = dirs (stack.take n) ++ dirs (stack.drop n) := by
    rw [dirs, dirs, dirs, ← flatMap_append, take_append_drop]
  rw [hsplit, length_append]
  omega

theorem length_dirs_push_le (stack : List (List UInt8)) (dir : List UInt8) :
    (dirs (push stack dir)).length ≤ (dirs stack).length + dir.length + 1 := by
  by_cases hd : Dots dir
  · rw [push_dots hd]
    have := length_dirs_drop_le (dir.length - 1) stack
    omega
  · rw [push_name hd]
    simp only [dirs, flatMap_cons, length_append, length_singleton]
    omega

theorem length_dirs_foldl_le : ∀ stack : List (List UInt8),
    (dirs (ds.foldl push stack)).length ≤ (dirs stack).length + (dirs ds).length := by
  induction ds with
  | nil => simp [dirs]
  | cons dir ds ih =>
    intro stack
    have hrest := ih (push stack dir)
    have hpush := length_dirs_push_le stack dir
    have hcons : (dirs (dir :: ds)).length = dir.length + 1 + (dirs ds).length := by
      simp only [dirs, flatMap_cons, length_append, length_singleton]
    rw [foldl_cons]
    omega

theorem length_dirs_reverse (stack : List (List UInt8)) :
    (dirs stack.reverse).length = (dirs stack).length := by
  simp [dirs, length_flatMap]

theorem length_resolvedNames_le (last : List UInt8) :
    (join (resolvedNames (ds ++ [last]))).length ≤ (join (ds ++ [last])).length := by
  obtain ⟨n, left, heq, -, hleft⟩ := finish_eq (ds.foldl push []) last
  have hleft : left.length ≤ last.length := by
    rcases hleft with rfl | rfl
    · exact Nat.zero_le _
    · exact Nat.le_refl _
  have hdrop := length_dirs_drop_le n (ds.foldl push [])
  have hrun := length_dirs_foldl_le ds []
  rw [resolvedNames_append_singleton, heq, join_append_singleton, join_append_singleton,
    length_append, length_append, length_dirs_reverse]
  have hempty : (dirs []).length = 0 := rfl
  omega

theorem IsName.not_absolute (h : IsName name) : ¬Absolute name := by
  intro habs
  cases h 0x2F (mem_of_head? habs)

theorem not_absolute_finish (hlast : IsName last) (hnames : ∀ name ∈ stack, IsName name)
    (hb : Bottom [] stack) : ¬Absolute (join (finish stack last)) := by
  obtain ⟨n, left, heq, -, hleft⟩ := finish_eq stack last
  have hleft : IsName left := by
    rcases hleft with rfl | rfl
    · exact fun c hc => by cases hc
    · exact hlast
  have hlastName : ∀ name ∈ (stack.drop n).getLast?, name ≠ [] :=
    ((hb.drop n).resolve_left (by simp)).2
  rw [heq, join_append_singleton]
  cases hrev : (stack.drop n).reverse with
  | nil => exact hleft.not_absolute
  | cons first others =>
    have hfirst : (stack.drop n).getLast? = some first := by
      rw [← head?_reverse, hrev]
      rfl
    have hmem : first ∈ stack := mem_of_mem_drop (mem_of_getLast? hfirst)
    obtain ⟨c, tail, rfl⟩ := exists_cons_of_ne_nil (hlastName first hfirst)
    exact (hnames _ hmem).not_absolute

theorem join_nil_cons {ns : List (List UInt8)} (h : ns ≠ []) :
    join ([] :: ns) = 0x2F :: join ns := by
  rw [join, intercalate_cons_of_ne_nil h]
  rfl

theorem resolvedNames_ne_nil (ns : List (List UInt8)) : resolvedNames ns ≠ [] :=
  finish_ne_nil _ _

theorem loop_root {ds : List (List UInt8)} {last : List UInt8} {l : UInt8} {fuel : Nat}
    (hnames : ∀ name ∈ ds ++ [last], IsName name)
    (hfuel : (join (ds ++ [last])).length + 1 < fuel) :
    resolveLoop fuel (0x2F :: join (ds ++ [last])) l [] =
      some (join ([] :: resolvedNames (ds ++ [last]))) := by
  obtain ⟨fuel, rfl⟩ : ∃ n, fuel = n + 1 := ⟨fuel - 1, by omega⟩
  rw [resolveLoop, if_neg (by simp), join_nil_cons (resolvedNames_ne_nil _)]
  exact loop_names hnames (.inl rfl) (by simp) rfl (by omega)

/-- A path is resolved as meant, or as an absolute one from an empty name on. -/
theorem resolve_cases : ((Absolute path.octets ∨ Grounded [] (directories path.octets)) ∧
      resolve path = some (resolved path.octets)) ∨
    ¬(Absolute path.octets ∨ Grounded [] (directories path.octets)) ∧ ∃ before after last,
      names path.octets = before ++ [] :: (after ++ [last]) ∧
      resolve path = some (join ([] :: resolvedNames (after ++ [last]))) := by
  have hnames : ∀ name ∈ names path.octets, IsName name := fun _ => isName_of_mem_names path
  by_cases habs : Absolute path.octets
  · left
    refine ⟨.inl habs, ?_⟩
    obtain ⟨rest, hrest, hcons⟩ := names_of_absolute habs
    obtain ⟨ds, last, hds⟩ := exists_names rest
    have hjoin : join (ds ++ [last]) = rest := by rw [← hds, join_names]
    have hrun := @loop_root ds last 0x2F (path.octets.length + 1)
      (fun name h => hnames name (by rw [hcons, hds]; exact mem_cons_of_mem _ h))
      (by rw [hjoin, hrest]; simp)
    rw [hjoin, ← hrest] at hrun
    rw [resolve, hrun, resolved, if_pos habs, hcons, tail_cons, hds]
  · obtain ⟨ds, last, hds⟩ := exists_names path.octets
    have hjoin : join (ds ++ [last]) = path.octets := by rw [← hds, join_names]
    have hdirs : directories path.octets = ds := by
      rw [directories, hds, dropLast_concat]
    rw [hds] at hnames
    rcases grounded_or ds [] with hground | ⟨before, after, rfl, hempty, hbefore⟩
    · left
      refine ⟨.inr (hdirs ▸ hground), ?_⟩
      have hrun := @loop_names [] last ds 0x2F (path.octets.length + 1) hnames
        (.inr ⟨rfl, by simp⟩) (fun _ => hground) rfl (by rw [hjoin]; omega)
      rw [hjoin, nil_append] at hrun
      rw [resolve, hrun, resolved, if_neg habs, hds]
    · right
      have hground : ¬Grounded [] (directories path.octets) := by
        rw [hdirs]
        exact fun h => h before after rfl hempty
      refine ⟨not_or.mpr ⟨habs, hground⟩, before, after, last, by rw [hds]; simp, ?_⟩
      have hpath : path.octets = dirs before ++ 0x2F :: join (after ++ [last]) := by
        rw [← hjoin, join_append_singleton, join_append_singleton]
        simp [dirs]
      have hlen := congrArg length hpath
      -- the delimiter of the empty name takes the place of the root
      obtain ⟨fuel, l, hfuel, -, hrun⟩ := @loop_dirs [] before [] 0x2F
        (0x2F :: join (after ++ [last])) ((join (after ++ [last])).length + 2)
        (fun dir h => hnames dir (by simp [h])) (by simp) (.inr ⟨rfl, by simp⟩)
        (fun _ => hbefore) rfl
      have hroot : written [] ([] : List (List UInt8)) = [] := rfl
      rw [hempty, hroot, ← hpath] at hrun
      have hfuel' : path.octets.length + 1 =
          (join (after ++ [last])).length + 2 + (dirs before).length := by
        rw [hpath]
        simp only [length_append, length_cons]
        omega
      rw [resolve, hfuel', hrun]
      exact loop_root (fun name h => hnames name (by
        rw [append_assoc]
        exact mem_append_right _ (mem_cons_of_mem _ h))) (by omega)

theorem isName_nil : IsName [] := fun c hc => by cases hc

theorem names_resolvedNames {ds : List (List UInt8)} (hnames : ∀ name ∈ ds ++ [last], IsName name) :
    names (join (resolvedNames (ds ++ [last]))) = resolvedNames (ds ++ [last]) :=
  names_join (resolvedNames_ne_nil _)
    (forall_mem_resolvedNames isName_nil fun name h _ => hnames name h)

theorem not_dots_of_mem_resolvedNames {ds : List (List UInt8)} :
    ∀ name ∈ resolvedNames (ds ++ [last]), ¬Dots name :=
  forall_mem_resolvedNames (fun h => h.1 rfl) fun _ _ hd => hd

theorem rooted_guarded {path : CString} {before after : List (List UInt8)} {last : List UInt8}
    (h : names path.octets = before ++ [] :: (after ++ [last])) :
    (∀ name ∈ names (join ([] :: resolvedNames (after ++ [last]))), ¬Dots name) ∧
      (join ([] :: resolvedNames (after ++ [last]))).length ≤ path.octets.length := by
  have hnames : ∀ name ∈ after ++ [last], IsName name := by
    intro name hname
    refine isName_of_mem_names path (h ▸ ?_)
    exact mem_append_right _ (mem_cons_of_mem _ hname)
  constructor
  · have hleft : ∀ name ∈ [] :: resolvedNames (after ++ [last]), IsName name :=
      forall_mem_cons.mpr ⟨isName_nil,
        forall_mem_resolvedNames isName_nil fun name h _ => hnames name h⟩
    rw [names_join (cons_ne_nil _ _) hleft]
    exact forall_mem_cons.mpr ⟨fun h => h.1 rfl, not_dots_of_mem_resolvedNames⟩
  · have hpath : path.octets = dirs before ++ 0x2F :: join (after ++ [last]) := by
      rw [← join_names path.octets, h, join_append_singleton, ← cons_append,
        ← append_assoc, join_append_singleton]
      simp [dirs]
    have hle := length_resolvedNames_le after last
    rw [join_nil_cons (resolvedNames_ne_nil _), hpath]
    simp only [length_append, length_cons]
    omega

theorem resolve_guarded : ∃ newPath, resolve path = some newPath ∧
    (∀ name ∈ names newPath, ¬Dots name) ∧ newPath.length ≤ path.octets.length ∧
    (Absolute path.octets → Absolute newPath) := by
  rcases resolve_cases path with ⟨-, hrun⟩ | ⟨habs, before, after, last, hnames, hrun⟩
  · refine ⟨_, hrun, ?_⟩
    by_cases habs : Absolute path.octets
    · obtain ⟨rest, -, hcons⟩ := names_of_absolute habs
      obtain ⟨ds, last, hds⟩ := exists_names rest
      rw [resolved, if_pos habs, hcons, tail_cons, hds]
      rw [hds] at hcons
      obtain ⟨hdots, hlen⟩ := @rooted_guarded path [] ds last hcons
      refine ⟨hdots, hlen, fun _ => ?_⟩
      rw [join_nil_cons (resolvedNames_ne_nil _)]
      rfl
    · obtain ⟨ds, last, hds⟩ := exists_names path.octets
      have hnames : ∀ name ∈ ds ++ [last], IsName name := fun name h =>
        isName_of_mem_names path (hds ▸ h)
      rw [resolved, if_neg habs, hds, names_resolvedNames hnames]
      refine ⟨not_dots_of_mem_resolvedNames, ?_, fun h => absurd h habs⟩
      calc (join (resolvedNames (ds ++ [last]))).length
          ≤ (join (ds ++ [last])).length := length_resolvedNames_le ds last
        _ = path.octets.length := by rw [← hds, join_names]
  · obtain ⟨hdots, hlen⟩ := rooted_guarded hnames
    exact ⟨_, hrun, hdots, hlen, fun h => absurd (.inl h) habs⟩

theorem not_absolute_resolved {path : CString} (habs : ¬Absolute path.octets)
    (hground : Grounded [] (directories path.octets)) : ¬Absolute (resolved path.octets) := by
  obtain ⟨ds, last, hds⟩ := exists_names path.octets
  have hnames : ∀ name ∈ ds ++ [last], IsName name := fun name h =>
    isName_of_mem_names path (hds ▸ h)
  rw [directories, hds, dropLast_concat] at hground
  rw [resolved, if_neg habs, hds, resolvedNames_append_singleton]
  refine not_absolute_finish (hnames last (by simp)) ?_
    (Bottom.run ds [] (.inr ⟨rfl, by simp⟩) fun _ => hground)
  exact forall_mem_foldl_push ds [] (by simp)
    fun name h _ => hnames name (mem_append_left _ h)

/--
**Which paths are resolved.** The new path has no name of dots and is not longer, whatever the
old one is. It is what a stack makes of the names, and starts with a delimiter only when the
old one does, unless an empty directory name comes when none is left: its delimiter then stays
at the start, as a root.
-/
theorem resolves_iff (path : CString) : (∃ newPath, resolve path = some newPath ∧
      (∀ name ∈ names newPath, ¬Dots name) ∧ newPath.length ≤ path.octets.length ∧
      (Absolute path.octets → Absolute newPath)) ∧
    ((∃ newPath, resolve path = some newPath ∧ Resolves path.octets newPath) ↔
      Absolute path.octets ∨ Grounded [] (directories path.octets)) := by
  refine ⟨resolve_guarded path, ?_⟩
  rcases resolve_cases path with ⟨hcond, hrun⟩ | ⟨hcond, before, after, last, -, hrun⟩
  · refine iff_of_true ⟨_, hrun, ?_⟩ hcond
    obtain ⟨newPath, hrun', hdots, hlen, habs⟩ := resolve_guarded path
    obtain rfl := Option.some.inj (hrun.symm.trans hrun')
    refine ⟨hdots, ⟨fun hnew => ?_, habs⟩, hlen, rfl⟩
    by_contra hold
    exact not_absolute_resolved hold (hcond.resolve_left hold) hnew
  · refine iff_of_false (fun ⟨newPath, hrun', hres⟩ => hcond (.inl (hres.absolute.mp ?_))) hcond
    obtain rfl := Option.some.inj (hrun.symm.trans hrun')
    rw [join_nil_cons (resolvedNames_ne_nil _)]
    rfl

/-- ".//etc": the empty name comes first, and its delimiter becomes a root. -/
theorem relative_made_absolute : ¬∀ path : CString, ∃ newPath, resolve path = some newPath ∧
    Resolves path.octets newPath := by
  intro h
  obtain ⟨newPath, hrun, hres⟩ := h ⟨[0x2E, 0x2F, 0x2F, 0x65, 0x74, 0x63], by decide⟩
  obtain rfl : [0x2F, 0x65, 0x74, 0x63] = newPath := Option.some.inj hrun
  exact absurd (hres.absolute.mp (by decide)) (by decide)

end Path

end OpenAmq
