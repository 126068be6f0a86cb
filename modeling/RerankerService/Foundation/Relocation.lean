import RerankerService.Foundation.Writing

/-!
# Trees that move

A directory is filled under one name and then has another. A path that stays inside leads to the
same place before and after. A path that leaves the directory does not find it again: before, it has
only its first name, and after, only its second. An empty directory may have had the second name.
-/

namespace RerankerService.Files

open Outcome

variable {ν β : Type}

/-! ### Resolution inside a tree -/

namespace Tree

/-- One step of a resolution that may not leave the tree. -/
def enterInside (t : Tree ν β) (follow : Location ν → Path ν → Option (Location ν))
    (l : Location ν) : Component ν → Option (Location ν)
  | .here => some l
  | .parent => if l.isEmpty then none else some l.dropLast
  | .name name =>
      match t.node (l ++ [name]) with
      | none => none
      | some (.symlink absolute target) => if absolute then none else follow l target
      | some _ => some (l ++ [name])

def followInside (t : Tree ν β) : Nat → Location ν → Path ν → Option (Location ν)
  | 0, _, _ => none
  | depth + 1, l, path => path.foldlM (t.enterInside (t.followInside depth)) l

def resolveInside (t : Tree ν β) (depth : Nat) (path : Path ν) : Option (Location ν) :=
  path.foldlM (t.enterInside (t.followInside depth)) []

/-- Where the last name of a path leads: it need not exist. -/
def enterLastInside (t : Tree ν β) (follow locate : Location ν → Path ν → Option (Location ν))
    (l : Location ν) (path : Path ν) : Option (Location ν) :=
  match path.getLast? with
  | some (.name name) =>
      (path.dropLast.foldlM (t.enterInside follow) l).bind fun parent =>
        match t.node (parent ++ [name]) with
        | some (.symlink absolute target) => if absolute then none else locate parent target
        | _ => some (parent ++ [name])
  | _ => path.foldlM (t.enterInside follow) l

def locateInside (t : Tree ν β) : Nat → Location ν → Path ν → Option (Location ν)
  | 0, l, path => t.enterLastInside (t.followInside 0) (fun _ _ => none) l path
  | depth + 1, l, path =>
      t.enterLastInside (t.followInside (depth + 1)) (t.locateInside depth) l path

end Tree

namespace FileSystem

variable {fs fs' : FileSystem ν β} {t : Tree ν β} {l m : Location ν} {path : Path ν} {content : β}
  {P : β → Prop}

/-! ### A tree at a place -/

/-- What the tree has is at `p`, up to what has been written since. -/
def Embeds (P : β → Prop) (fs : FileSystem ν β) (p : Location ν) (t : Tree ν β) : Prop :=
  ∀ q, Written P (t.node q) (fs.node (p ++ q))

variable {p : Location ν}

theorem Embeds.enter (h : fs.Embeds P p t)
    {follow : Location ν → Path ν → Except OsError (Location ν)}
    {inside : Location ν → Path ν → Option (Location ν)}
    (hfollow : ∀ l path m, inside l path = some m → follow (p ++ l) path = .ok (p ++ m))
    {c : Component ν} (henter : t.enterInside inside l c = some m) :
    fs.enter follow (p ++ l) c = .ok (p ++ m) := by
  cases c with
  | here =>
      cases henter
      rfl
  | parent =>
      rw [Tree.enterInside] at henter
      split at henter
      · cases henter
      · rename_i hl
        cases henter
        rw [FileSystem.enter, List.dropLast_append_of_ne_nil fun hnil => hl (by rw [hnil]; rfl)]
  | name name =>
      have hwritten := h (l ++ [name])
      rw [← List.append_assoc] at hwritten
      cases hnode : t.node (l ++ [name]) with
      | none => simp [Tree.enterInside, hnode] at henter
      | some node =>
          rw [hnode] at hwritten
          simp only [Tree.enterInside, hnode] at henter
          cases node with
          | symlink absolute target =>
              cases absolute with
              | true => cases henter
              | false =>
                  rw [enter_symlink hwritten.symlink]
                  exact hfollow _ _ _ henter
          | file content =>
              cases henter
              rw [enter_name (hwritten.present rfl), List.append_assoc]
          | directory =>
              cases henter
              rw [enter_name (hwritten.present rfl), List.append_assoc]

theorem Embeds.foldlM (h : fs.Embeds P p t)
    {follow : Location ν → Path ν → Except OsError (Location ν)}
    {inside : Location ν → Path ν → Option (Location ν)}
    (hfollow : ∀ l path m, inside l path = some m → follow (p ++ l) path = .ok (p ++ m))
    (hfold : path.foldlM (t.enterInside inside) l = some m) :
    path.foldlM (fs.enter follow) (p ++ l) = .ok (p ++ m) := by
  induction path generalizing l with
  | nil =>
      cases hfold
      rfl
  | cons c rest ih =>
      rw [List.foldlM_cons] at hfold ⊢
      obtain ⟨next, hnext, hrest⟩ := Option.bind_eq_some_iff.mp hfold
      exact bind_eq_ok.mpr ⟨p ++ next, h.enter hfollow hnext, ih hrest⟩

theorem Embeds.follow (h : fs.Embeds P p t) {d : Nat}
    (hinside : t.followInside d l path = some m) : fs.follow d (p ++ l) path = .ok (p ++ m) := by
  induction d generalizing l path m with
  | zero => cases hinside
  | succ d ih => exact h.foldlM (fun _ _ _ => ih) hinside

/-- A path that stays inside the tree. -/
theorem Embeds.resolve (h : fs.Embeds P p t) {place : Path ν} (hplace : fs.resolve place = .ok p)
    (hinside : t.resolveInside fs.depth path = some m) :
    fs.resolve (place ++ path) = .ok (p ++ m) := by
  rw [FileSystem.resolve, walk_append]
  rw [FileSystem.resolve] at hplace
  rw [hplace]
  have hfold := h.foldlM (fun _ _ _ => h.follow) hinside
  rwa [List.append_nil] at hfold

section EnterLast

variable {follow locate : Location ν → Path ν → Option (Location ν)} {parents : Path ν} {name : ν}
  {parent : Location ν}

theorem enterLastInside_symlink {absolute : Bool} {target : Path ν}
    (hparent : parents.foldlM (t.enterInside follow) l = some parent)
    (hnode : t.node (parent ++ [name]) = some (.symlink absolute target)) :
    t.enterLastInside follow locate l (parents ++ [.name name]) =
      if absolute then none else locate parent target := by
  rw [Tree.enterLastInside, List.getLast?_concat, List.dropLast_concat]
  simp only [hparent, Option.bind_some, hnode]

theorem enterLastInside_name (hparent : parents.foldlM (t.enterInside follow) l = some parent)
    (hnode : ∀ absolute target, t.node (parent ++ [name]) ≠ some (.symlink absolute target)) :
    t.enterLastInside follow locate l (parents ++ [.name name]) = some (parent ++ [name]) := by
  rw [Tree.enterLastInside, List.getLast?_concat, List.dropLast_concat]
  simp only [hparent, Option.bind_some]

theorem enterLastInside_other (h : ∀ name, path.getLast? ≠ some (.name name)) :
    t.enterLastInside follow locate l path = path.foldlM (t.enterInside follow) l := by
  unfold Tree.enterLastInside
  split
  · rename_i name heq
    exact absurd heq (h name)
  · rfl

theorem enterLastInside_some (h : t.enterLastInside follow locate l path = some m) :
    (∃ parents name parent, path = parents ++ [.name name] ∧
      parents.foldlM (t.enterInside follow) l = some parent ∧
      ((∃ target, t.node (parent ++ [name]) = some (.symlink false target) ∧
          locate parent target = some m) ∨
        ((∀ absolute target, t.node (parent ++ [name]) ≠ some (.symlink absolute target)) ∧
          m = parent ++ [name]))) ∨
    ((∀ name, path.getLast? ≠ some (.name name)) ∧
      path.foldlM (t.enterInside follow) l = some m) := by
  rcases path_cases path with ⟨parents, name, rfl⟩ | hother
  · cases hparent : parents.foldlM (t.enterInside follow) l with
    | none =>
        rw [Tree.enterLastInside, List.getLast?_concat, List.dropLast_concat, hparent] at h
        cases h
    | some parent =>
        refine .inl ⟨parents, name, parent, rfl, hparent, ?_⟩
        by_cases hlink : ∃ absolute target,
            t.node (parent ++ [name]) = some (.symlink absolute target)
        · obtain ⟨absolute, target, hnode⟩ := hlink
          rw [enterLastInside_symlink hparent hnode] at h
          cases absolute with
          | true => cases h
          | false => exact .inl ⟨target, hnode, h⟩
        · have hnode : ∀ absolute target,
              t.node (parent ++ [name]) ≠ some (.symlink absolute target) :=
            fun absolute target heq => hlink ⟨absolute, target, heq⟩
          rw [enterLastInside_name hparent hnode] at h
          exact .inr ⟨hnode, (Option.some.inj h).symm⟩
  · rw [enterLastInside_other hother] at h
    exact .inr ⟨hother, h⟩

theorem Embeds.enterLast (h : fs.Embeds P p t) {d : Nat}
    (hfile : fs.node (p ++ m) = some (.file content))
    (hlocate : ∀ l path, locate l path = some m → fs.follow d (p ++ l) path = .ok (p ++ m))
    (hinside : t.enterLastInside (t.followInside d) locate l path = some m) :
    path.foldlM (fs.enter (fs.follow d)) (p ++ l) = .ok (p ++ m) := by
  rcases enterLastInside_some hinside with ⟨parents, name, parent, rfl, hparent, hlast⟩ | ⟨-, hfold⟩
  · rw [List.foldlM_append]
    refine bind_eq_ok.mpr ⟨p ++ parent, h.foldlM (fun _ _ _ => h.follow) hparent, ?_⟩
    rw [List.foldlM_cons]
    refine bind_eq_ok.mpr ⟨p ++ m, ?_, rfl⟩
    rcases hlast with ⟨target, hnode, hlast⟩ | ⟨-, rfl⟩
    · have hwritten := h (parent ++ [name])
      rw [← List.append_assoc, hnode] at hwritten
      rw [enter_symlink hwritten.symlink]
      exact hlocate _ _ hlast
    · rw [← List.append_assoc] at hfile ⊢
      exact enter_name ⟨_, hfile, rfl⟩
  · exact h.foldlM (fun _ _ _ => h.follow) hfold

end EnterLast

/-- A file is found where it has been written. -/
theorem Embeds.follow_locate (h : fs.Embeds P p t) {d : Nat}
    (hfile : fs.node (p ++ m) = some (.file content))
    (hinside : t.locateInside d l path = some m) :
    path.foldlM (fs.enter (fs.follow d)) (p ++ l) = .ok (p ++ m) := by
  induction d generalizing l path with
  | zero => exact h.enterLast hfile (fun _ _ hnone => by cases hnone) hinside
  | succ d ih => exact h.enterLast hfile (fun _ _ => ih) hinside

theorem enterLast_embedded (h : ∀ q, fs.node (p ++ q) = t.node q) {d : Nat}
    {inside : Location ν → Path ν → Option (Location ν)}
    {seek : Location ν → Path ν → Except OsError (Location ν)}
    (hseek : ∀ l path, inside l path = some m → seek (p ++ l) path = .ok (p ++ m))
    (hinside : t.enterLastInside (t.followInside d) inside l path = some m) :
    fs.enterLast (fs.follow d) seek (p ++ l) path = .ok (p ++ m) := by
  have hembeds : fs.Embeds (fun _ => False) p t := fun q => by
    rw [h]
    exact .same _
  rcases enterLastInside_some hinside with
    ⟨parents, name, parent, rfl, hparent, hlast⟩ | ⟨hother, hfold⟩
  · have hfound := hembeds.foldlM (fun _ _ _ => hembeds.follow) hparent
    rcases hlast with ⟨target, hnode, hlast⟩ | ⟨hlink, rfl⟩
    · rw [← h, ← List.append_assoc] at hnode
      rw [enterLast_symlink hfound hnode]
      exact hseek _ _ hlast
    · simp only [← h, ← List.append_assoc] at hlink
      rw [enterLast_name hfound hlink, List.append_assoc]
  · rw [enterLast_other hother]
    exact hembeds.foldlM (fun _ _ _ => hembeds.follow) hfold

/-- A file is written where the tree says. -/
theorem seek_embedded (h : ∀ q, fs.node (p ++ q) = t.node q) {d : Nat}
    (hinside : t.locateInside d l path = some m) : fs.seek d (p ++ l) path = .ok (p ++ m) := by
  induction d generalizing l path with
  | zero => exact enterLast_embedded h (fun _ _ hnone => by cases hnone) hinside
  | succ d ih => exact enterLast_embedded h (fun _ _ => ih) hinside

/-! ### A tree at two places, one after the other -/

/-- Not inside of the two places. A path may pass `goal` itself. -/
def Outside (source goal l : Location ν) : Prop :=
  ¬source <+: l ∧ (goal <+: l → l = goal)

/-- The tree was at `source`, next to a `goal` that had nothing in it, and is at `goal` now. -/
structure Moved (P : β → Prop) (fs fs' : FileSystem ν β) (t : Tree ν β)
    (source goal : Location ν) : Prop where
  limits : fs'.limits = fs.limits
  parent : source.dropLast = goal.dropLast
  outside : Outside source goal source.dropLast
  before : ∀ q, fs.node (source ++ q) = t.node q
  root : t.node [] = some .directory
  after : fs'.Embeds P goal t
  fresh : fs.Vacant goal
  gone : fs'.node source = none
  others : ∀ l, ¬source <+: l → ¬goal <+: l → Written P (fs.node l) (fs'.node l)

/-- Where the two resolutions of one path are: at one place of the tree, which is the one that a
resolution inside the tree has reached, or at one place outside. -/
def Tracks (source goal : Location ν) (inside : Option (Location ν)) (l m : Location ν) : Prop :=
  (∃ q, inside = some q ∧ l = source ++ q ∧ m = goal ++ q) ∨ (l = m ∧ Outside source goal l)

theorem Outside.of_append {source goal rest : Location ν} (h : Outside source goal (l ++ rest)) :
    Outside source goal l := by
  refine ⟨fun hpre => h.1 (hpre.trans (List.prefix_append l rest)), fun hpre => ?_⟩
  have heq := h.2 (hpre.trans (List.prefix_append l rest))
  exact ((List.prefix_append l rest).trans (heq ▸ List.prefix_refl _)).eq_of_length_le hpre.length_le

theorem Outside.dropLast {source goal : Location ν} (h : Outside source goal l) :
    Outside source goal l.dropLast := by
  rcases List.eq_nil_or_concat l with rfl | ⟨parent, name, rfl⟩
  · exact h
  · rw [List.concat_eq_append] at h ⊢
    rw [List.dropLast_concat]
    exact h.of_append

/-- One step out of the tree is no step into it. -/
theorem Outside.append {source goal : Location ν} {name : ν} (h : Outside source goal l)
    (hsource : l ++ [name] ≠ source) (hgoal : l ≠ goal) :
    Outside source goal (l ++ [name]) := by
  constructor
  · intro hpre
    exact (List.prefix_concat_iff.mp hpre).elim (fun heq => hsource heq.symm) h.1
  · intro hpre
    exact (List.prefix_concat_iff.mp hpre).elim Eq.symm fun hpre => absurd (h.2 hpre) hgoal

theorem outside_parent (l : Location ν) (a b : ν) : Outside (l ++ [a]) (l ++ [b]) l := by
  have hlength : ∀ name, ¬l ++ [name] <+: l := by
    intro name hpre
    have hle := hpre.length_le
    rw [List.length_append, List.length_singleton] at hle
    omega
  exact ⟨hlength a, fun hpre => absurd hpre (hlength b)⟩

theorem moved_of_replace [DecidableEq ν] {written : FileSystem ν β} {a b : ν} (hne : b ≠ a)
    (hbefore : ∀ q, fs.node (l ++ [a] ++ q) = t.node q) (hroot : t.node [] = some .directory)
    (hwrites : fs.Writes P written) (hfree : written.Vacant (l ++ [b]))
    {h : l ++ [a] ≠ []}
    (hput : (written.remove (l ++ [a]) h).put (l ++ [b]) (written.subtree (l ++ [a])) = .ok fs') :
    Moved P fs fs' t (l ++ [a]) (l ++ [b]) where
  limits := (put_ok hput).2.1.trans hwrites.limits
  parent := by rw [List.dropLast_concat, List.dropLast_concat]
  outside := by
    rw [List.dropLast_concat]
    exact outside_parent l a b
  before := hbefore
  root := hroot
  after q := by
    rw [node_put_append hput, ← hbefore]
    exact hwrites.node _
  fresh := hwrites.keeps.vacant hfree
  gone := by
    rw [node_put_of_ne hput, node_remove, if_pos (List.prefix_refl _)]
    intro hpre
    exact hne (by simpa using hpre)
  others q hsource hgoal := by
    rw [node_put_of_ne hput hgoal, node_remove, if_neg hsource]
    exact hwrites.node q

variable {source goal : Location ν}

theorem Tracks.outside {inside : Option (Location ν)} (h : Tracks source goal none l m) :
    Tracks source goal inside l m := by
  rcases h with ⟨q, hq, -⟩ | houtside
  · cases hq
  · exact .inr houtside

theorem Moved.depth (h : Moved P fs fs' t source goal) : fs'.depth = fs.depth :=
  congrArg Limits.depth h.limits

theorem Moved.node_goal (h : Moved P fs fs' t source goal) : fs'.node goal = some .directory := by
  have hroot := (h.after []).directory_iff.mpr h.root
  rwa [List.append_nil] at hroot

/-- Outside, files have been written and nothing else. -/
theorem Moved.written (h : Moved P fs fs' t source goal) (hout : Outside source goal l)
    (hl : fs.node l ≠ none) : Written P (fs.node l) (fs'.node l) := by
  by_cases hgoal : goal <+: l
  · obtain ⟨node, hnode⟩ := Option.ne_none_iff_exists'.mp hl
    obtain ⟨rfl, rfl⟩ := h.fresh.eq_of_isPrefix hnode hgoal
    rw [hnode, h.node_goal]
    exact .same _
  · exact h.others l hout.1 hgoal

theorem Moved.enter_outside (h : Moved P fs fs' t source goal)
    {follow follow' : Location ν → Path ν → Except OsError (Location ν)}
    (hfollow : ∀ l path l' m', Outside source goal l → follow l path = .ok l' →
      follow' l path = .ok m' → Tracks source goal none l' m')
    {c : Component ν} {l' m' : Location ν} (hl : Outside source goal l)
    (henter : fs.enter follow l c = .ok l') (henter' : fs'.enter follow' l c = .ok m') :
    Tracks source goal none l' m' := by
  cases c with
  | here =>
      cases henter
      cases henter'
      exact .inr ⟨rfl, hl⟩
  | parent =>
      cases henter
      cases henter'
      exact .inr ⟨rfl, hl.dropLast⟩
  | name name =>
      cases hnode : fs.node (l ++ [name]) with
      | none =>
          rw [enter_none hnode] at henter
          cases henter
      | some node =>
          have hsource : l ++ [name] ≠ source := by
            intro heq
            rw [enter_none (heq ▸ h.gone)] at henter'
            cases henter'
          have hgoal : l ≠ goal := by
            rintro rfl
            rw [h.fresh.2 name] at hnode
            cases hnode
          have hout := hl.append hsource hgoal
          have hwritten := h.written hout (hnode ▸ Option.some_ne_none _)
          rw [hnode] at hwritten
          cases hlink : node.isSymlink with
          | true =>
              cases node with
              | symlink absolute target =>
                  rw [enter_symlink hnode] at henter
                  rw [enter_symlink hwritten.symlink] at henter'
                  refine hfollow _ _ _ _ ?_ henter henter'
                  split
                  · exact hl.of_append (l := [])
                  · exact hl
              | file content => cases hlink
              | directory => cases hlink
          | false =>
              rw [enter_name ⟨node, hnode, hlink⟩] at henter
              rw [enter_name (hwritten.present hlink)] at henter'
              cases henter
              cases henter'
              exact .inr ⟨rfl, hout⟩

theorem Moved.enter_inside (h : Moved P fs fs' t source goal)
    {follow follow' : Location ν → Path ν → Except OsError (Location ν)}
    {inside : Location ν → Path ν → Option (Location ν)}
    (hfollow : ∀ l path l' m', Outside source goal l → follow l path = .ok l' →
      follow' l path = .ok m' → Tracks source goal none l' m')
    (hinside : ∀ q path l' m', follow (source ++ q) path = .ok l' →
      follow' (goal ++ q) path = .ok m' → Tracks source goal (inside q path) l' m')
    {c : Component ν} {q l' m' : Location ν}
    (henter : fs.enter follow (source ++ q) c = .ok l')
    (henter' : fs'.enter follow' (goal ++ q) c = .ok m') :
    Tracks source goal (t.enterInside inside q c) l' m' := by
  cases c with
  | here =>
      cases henter
      cases henter'
      exact .inl ⟨q, rfl, rfl, rfl⟩
  | parent =>
      cases henter
      cases henter'
      by_cases hq : q = []
      · subst hq
        rw [List.append_nil, List.append_nil, ← h.parent]
        exact .inr ⟨rfl, h.outside⟩
      · refine .inl ⟨q.dropLast, ?_, ?_, ?_⟩
        · rw [Tree.enterInside, if_neg (by simpa using hq)]
        · exact List.dropLast_append_of_ne_nil hq
        · exact List.dropLast_append_of_ne_nil hq
  | name name =>
      have hnode := h.before (q ++ [name])
      have hwritten := h.after (q ++ [name])
      rw [← List.append_assoc] at hnode hwritten
      cases hkind : t.node (q ++ [name]) with
      | none =>
          rw [enter_none (hnode.trans hkind)] at henter
          cases henter
      | some node =>
          rw [hkind] at hnode hwritten
          simp only [Tree.enterInside, hkind]
          cases hlink : node.isSymlink with
          | true =>
              cases node with
              | symlink absolute target =>
                  rw [enter_symlink hnode] at henter
                  rw [enter_symlink hwritten.symlink] at henter'
                  cases absolute with
                  | true => exact hfollow _ _ _ _ (h.outside.of_append (l := [])) henter henter'
                  | false => exact hinside _ _ _ _ henter henter'
              | file content => cases hlink
              | directory => cases hlink
          | false =>
              rw [enter_name ⟨node, hnode, hlink⟩, List.append_assoc] at henter
              rw [enter_name (hwritten.present hlink), List.append_assoc] at henter'
              cases henter
              cases henter'
              refine .inl ⟨q ++ [name], ?_, rfl, rfl⟩
              cases node with
              | symlink absolute target => cases hlink
              | file content => rfl
              | directory => rfl

theorem Moved.foldlM (h : Moved P fs fs' t source goal)
    {follow follow' : Location ν → Path ν → Except OsError (Location ν)}
    {inside : Location ν → Path ν → Option (Location ν)}
    (hfollow : ∀ place l m path l' m', Tracks source goal place l m → follow l path = .ok l' →
      follow' m path = .ok m' → Tracks source goal (place.bind (inside · path)) l' m')
    {place : Option (Location ν)} {l m l' m' : Location ν} (htracks : Tracks source goal place l m)
    (hfold : path.foldlM (fs.enter follow) l = .ok l')
    (hfold' : path.foldlM (fs'.enter follow') m = .ok m') :
    Tracks source goal (place.bind (path.foldlM (t.enterInside inside))) l' m' := by
  induction path generalizing place l m with
  | nil =>
      cases hfold
      cases hfold'
      simpa using htracks
  | cons c rest ih =>
      rw [List.foldlM_cons] at hfold hfold'
      obtain ⟨next, hnext, hrest⟩ := bind_eq_ok.mp hfold
      obtain ⟨next', hnext', hrest'⟩ := bind_eq_ok.mp hfold'
      have houtside : ∀ l path l' m', Outside source goal l → follow l path = .ok l' →
          follow' l path = .ok m' → Tracks source goal none l' m' := fun l path l' m' hl =>
        hfollow none l l path l' m' (.inr ⟨rfl, hl⟩)
      rcases htracks with ⟨q, rfl, rfl, rfl⟩ | ⟨rfl, hl⟩
      · have hstep := h.enter_inside houtside (fun q path l' m' =>
          hfollow (some q) _ _ path l' m' (.inl ⟨q, rfl, rfl, rfl⟩)) hnext hnext'
        exact ih hstep hrest hrest'
      · exact (ih (h.enter_outside houtside hl hnext hnext') hrest hrest').outside

theorem Moved.follow (h : Moved P fs fs' t source goal) {d : Nat} {place : Option (Location ν)}
    {l' m' : Location ν} (htracks : Tracks source goal place l m)
    (hfollow : fs.follow d l path = .ok l') (hfollow' : fs'.follow d m path = .ok m') :
    Tracks source goal (place.bind (t.followInside d · path)) l' m' := by
  induction d generalizing place l m path l' m' with
  | zero => cases hfollow
  | succ d ih =>
      have hstep : ∀ place l m path l' m', Tracks source goal place l m →
          fs.follow d l path = .ok l' → fs'.follow d m path = .ok m' →
          Tracks source goal (place.bind (t.followInside d · path)) l' m' :=
        fun _ _ _ _ _ _ => ih
      exact h.foldlM hstep htracks hfollow hfollow'

theorem Moved.walk (h : Moved P fs fs' t source goal) {d : Nat} {place : Option (Location ν)}
    {l' m' : Location ν} (htracks : Tracks source goal place l m)
    (hfold : path.foldlM (fs.enter (fs.follow d)) l = .ok l')
    (hfold' : path.foldlM (fs'.enter (fs'.follow d)) m = .ok m') :
    Tracks source goal (place.bind (path.foldlM (t.enterInside (t.followInside d)))) l' m' := by
  have hstep : ∀ place l m path l' m', Tracks source goal place l m →
      fs.follow d l path = .ok l' → fs'.follow d m path = .ok m' →
      Tracks source goal (place.bind (t.followInside d · path)) l' m' :=
    fun _ _ _ _ _ _ => h.follow
  exact h.foldlM hstep htracks hfold hfold'

theorem Moved.resolve (h : Moved P fs fs' t source goal) {before after : Path ν}
    {l' m' : Location ν}
    (hbefore : fs.resolve before = .ok source) (hafter : fs'.resolve after = .ok goal)
    (hl : fs.resolve (before ++ path) = .ok l') (hm : fs'.resolve (after ++ path) = .ok m') :
    Tracks source goal (t.resolveInside fs.depth path) l' m' := by
  rw [FileSystem.resolve, walk_append] at hl hm
  rw [FileSystem.resolve] at hbefore hafter
  rw [hbefore] at hl
  rw [hafter] at hm
  have hstart : Tracks source goal (some []) source goal := .inl ⟨[], rfl, by simp, by simp⟩
  change fs.walk source path = .ok l' at hl
  change path.foldlM (fs'.enter (fs'.follow fs'.depth)) goal = .ok m' at hm
  rw [h.depth] at hm
  exact h.walk hstart hl hm

/-- A path from the root that leads anywhere afterwards leads where it led. -/
theorem Moved.resolve_outside (h : Moved P fs fs' t source goal) {l' m' : Location ν}
    (hl : fs.resolve path = .ok l') (hm : fs'.resolve path = .ok m') : m' = l' := by
  change path.foldlM (fs'.enter (fs'.follow fs'.depth)) [] = .ok m' at hm
  rw [h.depth] at hm
  have hstart : Tracks source goal none [] [] := .inr ⟨rfl, h.outside.of_append (l := [])⟩
  rcases h.walk hstart hl hm with ⟨q, hq, -⟩ | ⟨rfl, -⟩
  · cases hq
  · rfl

section Locate

variable {d : Nat} {inside : Location ν → Path ν → Option (Location ν)}
  {seek : Location ν → Path ν → Except OsError (Location ν)} {name : ν} {l' m' : Location ν}

theorem Moved.node_source (h : Moved P fs fs' t source goal) :
    fs.node source = some .directory := by
  have hroot := h.before []
  rwa [List.append_nil, h.root] at hroot

theorem Moved.last_outside (h : Moved P fs fs' t source goal)
    (hseek : ∀ l path, Outside source goal l → seek l path = .ok l' →
      fs'.follow d l path = .ok m' → Tracks source goal none l' m')
    (hgoal : ¬goal <+: l') (hfile : fs.node l' ≠ some .directory) (hl : Outside source goal l)
    (hlast : (∃ absolute target, fs.node (l ++ [name]) = some (.symlink absolute target) ∧
        seek (if absolute then [] else l) target = .ok l') ∨
      ((∀ absolute target, fs.node (l ++ [name]) ≠ some (.symlink absolute target)) ∧
        l' = l ++ [name]))
    (henter : fs'.enter (fs'.follow d) l (.name name) = .ok m') :
    Tracks source goal none l' m' := by
  rcases hlast with ⟨absolute, target, hnode, hlast⟩ | ⟨hlink, rfl⟩
  · have hsource : l ++ [name] ≠ source := by
      intro heq
      rw [heq, h.node_source] at hnode
      cases hnode
    have hne : l ≠ goal := by
      rintro rfl
      rw [h.fresh.2 name] at hnode
      cases hnode
    have hwritten := h.written (hl.append hsource hne) (hnode ▸ Option.some_ne_none _)
    rw [hnode] at hwritten
    rw [enter_symlink hwritten.symlink] at henter
    refine hseek _ _ ?_ hlast henter
    split
    · exact hl.of_append (l := [])
    · exact hl
  · have hsource : l ++ [name] ≠ source := by
      intro heq
      exact hfile (heq ▸ h.node_source)
    have hne : l ≠ goal := by
      rintro rfl
      exact hgoal (List.prefix_append l [name])
    have hout := hl.append hsource hne
    have hwritten := h.others _ hout.1 hgoal
    obtain rfl := eq_of_enter (fun absolute target hnode => by
      rw [hnode] at hwritten
      exact hlink absolute target hwritten.of_symlink) henter
    exact .inr ⟨rfl, hout⟩

theorem Moved.last_inside (h : Moved P fs fs' t source goal)
    (hseek : ∀ l path, Outside source goal l → seek l path = .ok l' →
      fs'.follow d l path = .ok m' → Tracks source goal none l' m')
    (hinside : ∀ q path, seek (source ++ q) path = .ok l' →
      fs'.follow d (goal ++ q) path = .ok m' → Tracks source goal (inside q path) l' m')
    {parents : Path ν} {q q' : Location ν}
    (hparents : parents.foldlM (t.enterInside (t.followInside d)) q = some q')
    (hlast : (∃ absolute target,
        fs.node (source ++ q' ++ [name]) = some (.symlink absolute target) ∧
        seek (if absolute then [] else source ++ q') target = .ok l') ∨
      ((∀ absolute target, fs.node (source ++ q' ++ [name]) ≠ some (.symlink absolute target)) ∧
        l' = source ++ q' ++ [name]))
    (henter : fs'.enter (fs'.follow d) (goal ++ q') (.name name) = .ok m') :
    Tracks source goal
      (t.enterLastInside (t.followInside d) inside q (parents ++ [.name name])) l' m' := by
  have hwritten := h.after (q' ++ [name])
  have hbefore := h.before (q' ++ [name])
  rw [← List.append_assoc] at hwritten hbefore
  rw [hbefore] at hlast
  rcases hlast with ⟨absolute, target, hnode, hlast⟩ | ⟨hlink, rfl⟩
  · rw [hnode] at hwritten
    rw [enter_symlink hwritten.symlink] at henter
    rw [enterLastInside_symlink hparents hnode]
    cases absolute with
    | true => exact hseek _ _ (h.outside.of_append (l := [])) hlast henter
    | false => exact hinside _ _ hlast henter
  · rw [enterLastInside_name hparents hlink]
    obtain rfl := eq_of_enter (fun absolute target hnode => by
      rw [hnode] at hwritten
      exact hlink absolute target hwritten.of_symlink) henter
    exact .inl ⟨q' ++ [name], rfl, List.append_assoc _ _ _, List.append_assoc _ _ _⟩

theorem Moved.enterLast (h : Moved P fs fs' t source goal)
    (hseek : ∀ place l m path, Tracks source goal place l m → seek l path = .ok l' →
      fs'.follow d m path = .ok m' → Tracks source goal (place.bind (inside · path)) l' m')
    (hgoal : ¬goal <+: l') (hfile : fs.node l' ≠ some .directory) {place : Option (Location ν)}
    (htracks : Tracks source goal place l m)
    (hlast : fs.enterLast (fs.follow d) seek l path = .ok l')
    (hfold : path.foldlM (fs'.enter (fs'.follow d)) m = .ok m') :
    Tracks source goal (place.bind (t.enterLastInside (t.followInside d) inside · path)) l' m' := by
  have houtside : ∀ l path, Outside source goal l → seek l path = .ok l' →
      fs'.follow d l path = .ok m' → Tracks source goal none l' m' := fun l path hl =>
    hseek none l l path (.inr ⟨rfl, hl⟩)
  rcases enterLast_ok hlast with ⟨parents, name, x, rfl, hx, hlast⟩ | ⟨hother, hlast⟩
  · rw [List.foldlM_append] at hfold
    obtain ⟨y, hy, hfold⟩ := bind_eq_ok.mp hfold
    obtain ⟨_, henter, hfold⟩ := bind_eq_ok.mp hfold
    cases hfold
    rcases h.walk htracks hx hy with ⟨q', hq', rfl, rfl⟩ | ⟨rfl, hout⟩
    · obtain ⟨q, rfl, hparents⟩ := Option.bind_eq_some_iff.mp hq'
      exact h.last_inside houtside (fun q path => hseek (some q) _ _ path
        (.inl ⟨q, rfl, rfl, rfl⟩)) hparents hlast henter
    · exact (h.last_outside houtside hgoal hfile hout hlast henter).outside
  · have hwalk := h.walk htracks hlast hfold
    have hinside : (t.enterLastInside (t.followInside d) inside · path) =
        path.foldlM (t.enterInside (t.followInside d)) := by
      funext q
      exact enterLastInside_other hother
    rwa [hinside]

theorem Moved.locate (h : Moved P fs fs' t source goal) (hgoal : ¬goal <+: l')
    (hfile : fs.node l' ≠ some .directory) {place : Option (Location ν)}
    (htracks : Tracks source goal place l m) (hlast : fs.seek d l path = .ok l')
    (hfold : path.foldlM (fs'.enter (fs'.follow d)) m = .ok m') :
    Tracks source goal (place.bind (t.locateInside d · path)) l' m' := by
  induction d generalizing place l m path with
  | zero =>
      exact h.enterLast (fun _ _ _ _ _ hloop => by cases hloop) hgoal hfile htracks hlast hfold
  | succ d ih =>
      have hstep : ∀ place l m path, Tracks source goal place l m → fs.seek d l path = .ok l' →
          fs'.follow (d + 1) m path = .ok m' →
          Tracks source goal (place.bind (t.locateInside d · path)) l' m' := fun _ _ _ _ => ih
      exact h.enterLast hstep hgoal hfile htracks hlast hfold

end Locate

end FileSystem

end RerankerService.Files
