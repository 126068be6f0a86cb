import RerankerService.Foundation.FileSystem
import RerankerService.Foundation.Outcome

/-!
# Where paths lead

What a resolution or a lookup ends at, how the two are related, and which changes of a file system
leave resolutions as they are.
-/

namespace RerankerService.Files

open Outcome

variable {ν β : Type}

theorem Tree.node_ofFiles [DecidableEq ν] {files : List (ν × β)} {l : Location ν} {content : β}
    (h : (Tree.ofFiles files).node l = some (.file content)) :
    ∃ name, l = [name] ∧ (name, content) ∈ files := by
  match l with
  | [] => cases h
  | [name] =>
      obtain ⟨content', hcontent, hfile⟩ := Option.map_eq_some_iff.mp h
      cases hfile
      obtain ⟨before, after, rfl, -⟩ := List.lookup_eq_some_iff.mp hcontent
      exact ⟨name, rfl, by simp⟩
  | _ :: _ :: _ => cases h

namespace FileSystem

variable {fs fs' : FileSystem ν β} {l m : Location ν} {path : Path ν} {content : β}

/-- What a resolution can end at. -/
def Present (fs : FileSystem ν β) (l : Location ν) : Prop :=
  ∃ node, fs.node l = some node ∧ node.isSymlink = false

theorem Present.root (fs : FileSystem ν β) : fs.Present [] :=
  ⟨.directory, fs.root, rfl⟩

theorem Present.of_append {rest : Location ν} (h : fs.Present (l ++ rest)) : fs.Present l := by
  by_cases hrest : rest = []
  · rwa [hrest, List.append_nil] at h
  · obtain ⟨node, hnode, -⟩ := h
    have habove := Tree.node_of_append (by rw [hnode]; exact Option.some_ne_none _) hrest
    exact ⟨.directory, habove, rfl⟩

theorem Present.dropLast (h : fs.Present l) : fs.Present l.dropLast := by
  rcases List.eq_nil_or_concat l with rfl | ⟨parent, name, rfl⟩
  · exact h
  · rw [List.concat_eq_append] at h ⊢
    rw [List.dropLast_concat]
    exact h.of_append

theorem Present.ne_symlink (h : fs.Present l) (absolute : Bool) (target : Path ν) :
    fs.node l ≠ some (.symlink absolute target) := by
  obtain ⟨node, hnode, hlink⟩ := h
  rintro hsymlink
  rw [hsymlink] at hnode
  cases hnode
  cases hlink

theorem enter_name {follow : Location ν → Path ν → Except OsError (Location ν)} {name : ν}
    (h : fs.Present (l ++ [name])) : fs.enter follow l (.name name) = .ok (l ++ [name]) := by
  obtain ⟨node, hnode, hlink⟩ := h
  cases node with
  | symlink absolute target => cases hlink
  | file content => simp only [enter, hnode]
  | directory => simp only [enter, hnode]

theorem enter_symlink {follow : Location ν → Path ν → Except OsError (Location ν)} {name : ν}
    {absolute : Bool} {target : Path ν}
    (h : fs.node (l ++ [name]) = some (.symlink absolute target)) :
    fs.enter follow l (.name name) = follow (if absolute then [] else l) target := by
  simp only [enter, h]

theorem enter_none {follow : Location ν → Path ν → Except OsError (Location ν)} {name : ν}
    (h : fs.node (l ++ [name]) = none) : fs.enter follow l (.name name) = .error .notFound := by
  simp only [enter, h]

theorem present_enter {follow : Location ν → Path ν → Except OsError (Location ν)}
    (hfollow : ∀ l path m, fs.Present l → follow l path = .ok m → fs.Present m)
    {c : Component ν} (hl : fs.Present l) (h : fs.enter follow l c = .ok m) : fs.Present m := by
  cases c with
  | here =>
      obtain rfl := Except.ok.inj h
      exact hl
  | parent =>
      obtain rfl := Except.ok.inj h
      exact hl.dropLast
  | name name =>
      cases hnode : fs.node (l ++ [name]) with
      | none => simp [enter, hnode] at h
      | some node =>
          cases node with
          | symlink absolute target =>
              simp only [enter, hnode] at h
              refine hfollow _ _ _ ?_ h
              split
              · exact .root fs
              · exact hl
          | file content =>
              simp only [enter, hnode, Except.ok.injEq] at h
              exact h ▸ ⟨_, hnode, rfl⟩
          | directory =>
              simp only [enter, hnode, Except.ok.injEq] at h
              exact h ▸ ⟨_, hnode, rfl⟩

theorem present_follow {d : Nat} (hl : fs.Present l) (h : fs.follow d l path = .ok m) :
    fs.Present m := by
  induction d generalizing l path m with
  | zero => cases h
  | succ d ih =>
      exact foldlM_ok (fun _ _ _ hs => present_enter (fun _ _ _ => ih) hs) hl h

/-- A resolution ends at a node that is no link. -/
theorem present_resolve (h : fs.resolve path = .ok l) : fs.Present l :=
  present_follow (d := fs.depth + 1) (.root fs) h

theorem walk_append (l : Location ν) (path rest : Path ν) :
    fs.walk l (path ++ rest) = (fs.walk l path).bind fun m => fs.walk m rest :=
  List.foldlM_append

theorem walk_names {names : List ν} (h : fs.Present (l ++ names)) :
    fs.walk l (names.map .name) = .ok (l ++ names) := by
  induction names generalizing l with
  | nil => rw [List.append_nil]; rfl
  | cons name rest ih =>
      rw [← List.singleton_append, ← List.append_assoc] at h
      rw [List.map_cons, walk, List.foldlM_cons, enter_name h.of_append]
      change fs.walk (l ++ [name]) (rest.map .name) = _
      rw [ih h, List.append_assoc, List.singleton_append]

theorem resolve_append_names (names : List ν) (h : fs.resolve path = .ok l)
    (hpresent : fs.Present (l ++ names)) :
    fs.resolve (path ++ names.map .name) = .ok (l ++ names) := by
  rw [resolve, walk_append]
  rw [resolve] at h
  rw [h]
  exact walk_names hpresent

/-- A location is a path to itself. -/
theorem resolve_names (h : fs.Present l) : fs.resolve (l.map .name) = .ok l :=
  walk_names (l := []) h

/-- Nothing that `fs` has is different in `fs'`. -/
structure Extends (fs fs' : FileSystem ν β) : Prop where
  limits : fs'.limits = fs.limits
  node : ∀ l node, fs.node l = some node → fs'.node l = some node

theorem Extends.refl (fs : FileSystem ν β) : fs.Extends fs :=
  ⟨rfl, fun _ _ h => h⟩

theorem Extends.depth (h : fs.Extends fs') : fs'.depth = fs.depth :=
  congrArg Limits.depth h.limits

theorem Extends.enter (h : fs.Extends fs')
    {follow follow' : Location ν → Path ν → Except OsError (Location ν)}
    (hfollow : ∀ l path m, follow l path = .ok m → follow' l path = .ok m) {c : Component ν}
    (henter : fs.enter follow l c = .ok m) : fs'.enter follow' l c = .ok m := by
  cases c with
  | here => exact henter
  | parent => exact henter
  | name name =>
      cases hnode : fs.node (l ++ [name]) with
      | none => simp [FileSystem.enter, hnode] at henter
      | some node =>
          cases node with
          | symlink absolute target =>
              simp only [FileSystem.enter, hnode] at henter
              simp only [FileSystem.enter, h.node _ _ hnode]
              exact hfollow _ _ _ henter
          | file content =>
              simp only [FileSystem.enter, hnode] at henter
              simpa only [FileSystem.enter, h.node _ _ hnode] using henter
          | directory =>
              simp only [FileSystem.enter, hnode] at henter
              simpa only [FileSystem.enter, h.node _ _ hnode] using henter

theorem Extends.follow (h : fs.Extends fs') {d : Nat}
    (hfollow : fs.follow d l path = .ok m) : fs'.follow d l path = .ok m := by
  induction d generalizing l path m with
  | zero => cases hfollow
  | succ d ih => exact foldlM_ok_mono (fun _ _ _ => h.enter fun _ _ _ => ih) hfollow

theorem Extends.resolve (h : fs.Extends fs') (hresolve : fs.resolve path = .ok l) :
    fs'.resolve path = .ok l := by
  have hfollow := h.follow (d := fs.depth + 1) hresolve
  rwa [← h.depth] at hfollow

/-- The two differ in the contents of files only. -/
structure SameKinds (fs fs' : FileSystem ν β) : Prop where
  limits : fs'.limits = fs.limits
  kind : ∀ l, (fs'.node l).map Node.kind = (fs.node l).map Node.kind

theorem SameKinds.enter (h : fs.SameKinds fs')
    (follow : Location ν → Path ν → Except OsError (Location ν)) :
    fs'.enter follow = fs.enter follow := by
  funext l c
  cases c with
  | here => rfl
  | parent => rfl
  | name name =>
      have hkind := h.kind (l ++ [name])
      cases hnode : fs.node (l ++ [name]) with
      | none =>
          rw [hnode, Option.map_none, Option.map_eq_none_iff] at hkind
          simp only [FileSystem.enter, hnode, hkind]
      | some node =>
          rw [hnode, Option.map_some] at hkind
          obtain ⟨node', hnode', hsame⟩ := Option.map_eq_some_iff.mp hkind
          cases node <;> cases node' <;> simp_all [FileSystem.enter, Node.kind]

theorem SameKinds.follow (h : fs.SameKinds fs') (depth : Nat) :
    fs'.follow depth = fs.follow depth := by
  induction depth with
  | zero => rfl
  | succ depth ih =>
      funext l path
      rw [FileSystem.follow, FileSystem.follow, ih, h.enter]

theorem SameKinds.resolve (h : fs.SameKinds fs') (path : Path ν) :
    fs'.resolve path = fs.resolve path := by
  rw [FileSystem.resolve, FileSystem.resolve, walk, walk, FileSystem.depth, h.limits, h.follow, h.enter]
  rfl

theorem not_isPrefix_of_node {node : Node ν β} (hl : fs.node l = none) (hm : fs.node m = some node) :
    ¬l <+: m := by
  rintro ⟨rest, rfl⟩
  by_cases hrest : rest = []
  · rw [hrest, List.append_nil, hl] at hm
    cases hm
  · have habove := Tree.node_of_append (by rw [hm]; exact Option.some_ne_none _) hrest
    rw [hl] at habove
    cases habove

theorem node_below (hl : fs.node l = none) (hm : l <+: m) : fs.node m = none := by
  cases hnode : fs.node m with
  | none => rfl
  | some node => exact absurd hm (not_isPrefix_of_node hl hnode)

theorem Extends.node_eq_none (h : fs.Extends fs') (hl : fs'.node l = none) : fs.node l = none := by
  cases hnode : fs.node l with
  | none => rfl
  | some node =>
      rw [h.node l node hnode] at hl
      cases hl

/-! ### The last name -/

/-- Where the last name of a path leads, with `seek` for the target of a link: it need not exist. -/
def enterLast (fs : FileSystem ν β)
    (follow seek : Location ν → Path ν → Except OsError (Location ν)) (l : Location ν)
    (path : Path ν) : Except OsError (Location ν) :=
  match path.getLast? with
  | some (.name name) => do
      let parent ← path.dropLast.foldlM (fs.enter follow) l
      match fs.node (parent ++ [name]) with
      | some (.symlink absolute target) => seek (if absolute then [] else parent) target
      | _ => return parent ++ [name]
  | _ => path.foldlM (fs.enter follow) l

/-- Where a file would be that a path leads to. -/
def seek (fs : FileSystem ν β) : Nat → Location ν → Path ν → Except OsError (Location ν)
  | 0 => fs.enterLast (fs.follow 0) fun _ _ => .error .loop
  | depth + 1 => fs.enterLast (fs.follow (depth + 1)) (fs.seek depth)

section EnterLast

variable {follow seek : Location ν → Path ν → Except OsError (Location ν)} {parents : Path ν}
  {name : ν} {parent : Location ν}

theorem path_cases (path : Path ν) :
    (∃ parents name, path = parents ++ [.name name]) ∨
      ∀ name, path.getLast? ≠ some (.name name) := by
  by_cases h : ∃ name, path.getLast? = some (.name name)
  · obtain ⟨name, hlast⟩ := h
    obtain ⟨parents, hpath⟩ := List.getLast?_eq_some_iff.mp hlast
    exact .inl ⟨parents, name, hpath⟩
  · exact .inr (not_exists.mp h)

theorem enterLast_symlink {absolute : Bool} {target : Path ν}
    (hparent : parents.foldlM (fs.enter follow) l = .ok parent)
    (hnode : fs.node (parent ++ [name]) = some (.symlink absolute target)) :
    fs.enterLast follow seek l (parents ++ [.name name]) =
      seek (if absolute then [] else parent) target := by
  rw [enterLast, List.getLast?_concat, List.dropLast_concat]
  simp only [hparent, bind, Except.bind, hnode]

theorem enterLast_name (hparent : parents.foldlM (fs.enter follow) l = .ok parent)
    (hnode : ∀ absolute target, fs.node (parent ++ [name]) ≠ some (.symlink absolute target)) :
    fs.enterLast follow seek l (parents ++ [.name name]) = .ok (parent ++ [name]) := by
  rw [enterLast, List.getLast?_concat, List.dropLast_concat]
  simp only [hparent, bind, Except.bind]
  rfl

theorem enterLast_other (h : ∀ name, path.getLast? ≠ some (.name name)) :
    fs.enterLast follow seek l path = path.foldlM (fs.enter follow) l := by
  unfold enterLast
  split
  · rename_i name heq
    exact absurd heq (h name)
  · rfl

/-- What a location was found through. -/
theorem enterLast_ok (h : fs.enterLast follow seek l path = .ok m) :
    (∃ parents name parent, path = parents ++ [.name name] ∧
      parents.foldlM (fs.enter follow) l = .ok parent ∧
      ((∃ absolute target, fs.node (parent ++ [name]) = some (.symlink absolute target) ∧
          seek (if absolute then [] else parent) target = .ok m) ∨
        ((∀ absolute target, fs.node (parent ++ [name]) ≠ some (.symlink absolute target)) ∧
          m = parent ++ [name]))) ∨
    ((∀ name, path.getLast? ≠ some (.name name)) ∧ path.foldlM (fs.enter follow) l = .ok m) := by
  rcases path_cases path with ⟨parents, name, rfl⟩ | hother
  · cases hparent : parents.foldlM (fs.enter follow) l with
    | error error =>
        rw [enterLast, List.getLast?_concat, List.dropLast_concat, hparent] at h
        cases h
    | ok parent =>
        refine .inl ⟨parents, name, parent, rfl, hparent, ?_⟩
        by_cases hlink : ∃ absolute target,
            fs.node (parent ++ [name]) = some (.symlink absolute target)
        · obtain ⟨absolute, target, hnode⟩ := hlink
          rw [enterLast_symlink hparent hnode] at h
          exact .inl ⟨absolute, target, hnode, h⟩
        · have hnode : ∀ absolute target,
              fs.node (parent ++ [name]) ≠ some (.symlink absolute target) :=
            fun absolute target heq => hlink ⟨absolute, target, heq⟩
          rw [enterLast_name hparent hnode] at h
          exact .inr ⟨hnode, (Except.ok.inj h).symm⟩
  · rw [enterLast_other hother] at h
    exact .inr ⟨hother, h⟩

theorem enterLast_append {rest : Path ν} (l : Location ν) (path : Path ν) (hrest : rest ≠ []) :
    fs.enterLast follow seek l (path ++ rest) =
      (path.foldlM (fs.enter follow) l).bind fun m => fs.enterLast follow seek m rest := by
  unfold enterLast
  rw [List.getLast?_append_of_ne_nil path hrest, List.dropLast_append_of_ne_nil hrest,
    List.foldlM_append, List.foldlM_append]
  cases path.foldlM (fs.enter follow) l with
  | error error =>
      split
      · rfl
      · rfl
  | ok m => rfl

theorem enterLast_cons {c : Component ν} {rest : Path ν} (hc : fs.enter follow l c = .ok m)
    (hname : ∀ name, c = .name name → fs.Present (l ++ [name])) :
    fs.enterLast follow seek l (c :: rest) = fs.enterLast follow seek m rest := by
  by_cases hrest : rest = []
  · subst hrest
    have hdone : fs.enterLast follow seek m [] = .ok m := rfl
    rw [hdone]
    cases c with
    | here => exact hc
    | parent => exact hc
    | name name =>
        rw [enter_name (hname name rfl)] at hc
        rw [← Except.ok.inj hc]
        have hparents : ([] : Path ν).foldlM (fs.enter follow) l = .ok l := rfl
        exact enterLast_name hparents fun absolute target =>
          (hname name rfl).ne_symlink absolute target
  · rw [← List.singleton_append, enterLast_append l [c] hrest, List.foldlM_cons, hc]
    rfl

theorem enterLast_ok_mono {follow' seek' : Location ν → Path ν → Except OsError (Location ν)}
    (hfollow : ∀ l path m, follow l path = .ok m → follow' l path = .ok m)
    (hseek : ∀ l path m, seek l path = .ok m → seek' l path = .ok m)
    (h : fs.enterLast follow seek l path = .ok m) : fs.enterLast follow' seek' l path = .ok m := by
  have hfold : ∀ {path : Path ν} {m : Location ν}, path.foldlM (fs.enter follow) l = .ok m →
      path.foldlM (fs.enter follow') l = .ok m := fun h =>
    foldlM_ok_mono (fun _ _ _ => (Extends.refl fs).enter hfollow) h
  rcases enterLast_ok h with ⟨parents, name, parent, rfl, hparent, hlast⟩ | ⟨hother, h⟩
  · rcases hlast with ⟨absolute, target, hnode, h⟩ | ⟨hnode, rfl⟩
    · rw [enterLast_symlink (hfold hparent) hnode]
      exact hseek _ _ _ h
    · exact enterLast_name (hfold hparent) hnode
  · rw [enterLast_other hother]
    exact hfold h

end EnterLast

theorem follow_succ {d : Nat} (h : fs.follow d l path = .ok m) :
    fs.follow (d + 1) l path = .ok m := by
  induction d generalizing l path m with
  | zero => cases h
  | succ d ih => exact foldlM_ok_mono (fun _ _ _ => (Extends.refl fs).enter fun _ _ _ => ih) h

theorem seek_succ {d : Nat} (h : fs.seek d l path = .ok m) : fs.seek (d + 1) l path = .ok m := by
  induction d generalizing l path m with
  | zero =>
      refine enterLast_ok_mono (fun _ _ _ => follow_succ) (fun _ _ _ hloop => ?_) h
      cases hloop
  | succ d ih => exact enterLast_ok_mono (fun _ _ _ => follow_succ) (fun _ _ _ => ih) h

/-! ### Lookups -/

/-- **What a lookup finds**, component by component. A link leaves one link less to follow. -/
inductive Leads (fs : FileSystem ν β) (creates : Bool) :
    Nat → Location ν → Path ν → Location ν → Prop where
  | done (links : Nat) (l : Location ν) : Leads fs creates links l [] l
  | here {links : Nat} {l m : Location ν} {rest : Path ν} (hl : fs.node l = some .directory)
      (h : Leads fs creates links l rest m) : Leads fs creates links l (.here :: rest) m
  | parent {links : Nat} {l m : Location ν} {rest : Path ν} (hl : fs.node l = some .directory)
      (h : Leads fs creates links l.dropLast rest m) :
      Leads fs creates links l (.parent :: rest) m
  | name {links : Nat} {l m : Location ν} {name : ν} {rest : Path ν}
      (hl : fs.node l = some .directory) (hname : fs.Present (l ++ [name]))
      (h : Leads fs creates links (l ++ [name]) rest m) :
      Leads fs creates links l (.name name :: rest) m
  | link {links : Nat} {l m : Location ν} {name : ν} {absolute : Bool} {target rest : Path ν}
      (hl : fs.node l = some .directory)
      (hlink : fs.node (l ++ [name]) = some (.symlink absolute target))
      (h : Leads fs creates links (if absolute then [] else l) (target ++ rest) m) :
      Leads fs creates (links + 1) l (.name name :: rest) m
  | created {links : Nat} {l : Location ν} {name : ν} (hl : fs.node l = some .directory)
      (hnone : fs.node (l ++ [name]) = none) (hcreates : creates = true) :
      Leads fs creates links l [.name name] (l ++ [name])

section Leads

variable {creates : Bool} {links : Nat} {rest : Path ν}

theorem leads_of_advance {jump : Location ν → Path ν → Except OsError (Location ν)}
    (hjump : ∀ l path, jump l path = .ok m → ∃ k, links = k + 1 ∧ fs.Leads creates k l path m)
    (h : fs.advance creates jump l path = .ok m) : fs.Leads creates links l path m := by
  induction path generalizing l with
  | nil =>
      obtain rfl := Except.ok.inj h
      exact .done links l
  | cons c rest ih =>
      cases c with
      | here =>
          rw [advance] at h
          split at h
          · rename_i hl
            exact .here (Tree.isDirectory_iff.mp hl) (ih h)
          · cases h
      | parent =>
          rw [advance] at h
          split at h
          · rename_i hl
            exact .parent (Tree.isDirectory_iff.mp hl) (ih h)
          · cases h
      | name name =>
          rw [advance] at h
          cases hnode : fs.node (l ++ [name]) with
          | none =>
              simp only [hnode] at h
              split at h
              · rename_i hl
                split at h
                · rename_i hlast
                  rw [Bool.and_eq_true, List.isEmpty_iff] at hlast
                  obtain ⟨hcreates, rfl⟩ := hlast
                  obtain rfl := Except.ok.inj h
                  exact .created (Tree.isDirectory_iff.mp hl) hnode hcreates
                · cases h
              · cases h
          | some node =>
              have hl := fs.closed l name (hnode ▸ Option.some_ne_none node)
              simp only [hnode] at h
              cases node with
              | symlink absolute target =>
                  obtain ⟨k, rfl, hleads⟩ := hjump _ _ h
                  exact .link hl hnode hleads
              | file content => exact .name hl ⟨_, hnode, rfl⟩ (ih h)
              | directory => exact .name hl ⟨_, hnode, rfl⟩ (ih h)

/-- The function finds what the relation says. -/
theorem lookupFrom_eq_ok :
    fs.lookupFrom creates links l path = .ok m ↔ fs.Leads creates links l path m := by
  constructor
  · intro h
    induction links generalizing l path with
    | zero =>
        refine leads_of_advance (fun _ _ hloop => ?_) h
        cases hloop
    | succ links ih => exact leads_of_advance (fun _ _ hjump => ⟨links, rfl, ih hjump⟩) h
  · have hadvance : ∀ links, ∃ jump, fs.lookupFrom creates links = fs.advance creates jump := by
      intro links
      cases links with
      | zero => exact ⟨_, rfl⟩
      | succ links => exact ⟨_, rfl⟩
    intro h
    induction h with
    | done links l =>
        obtain ⟨jump, hjump⟩ := hadvance links
        rw [hjump, advance]
    | @here links l m rest hl h ih =>
        obtain ⟨jump, hjump⟩ := hadvance links
        rw [hjump] at ih ⊢
        rw [advance, if_pos (Tree.isDirectory_iff.mpr hl), ih]
    | @parent links l m rest hl h ih =>
        obtain ⟨jump, hjump⟩ := hadvance links
        rw [hjump] at ih ⊢
        rw [advance, if_pos (Tree.isDirectory_iff.mpr hl), ih]
    | @name links l m name rest hl hname h ih =>
        obtain ⟨jump, hjump⟩ := hadvance links
        obtain ⟨node, hnode, hlink⟩ := hname
        rw [hjump] at ih ⊢
        rw [advance, hnode]
        cases node with
        | symlink absolute target => cases hlink
        | file content => exact ih
        | directory => exact ih
    | link hl hlink h ih =>
        rw [lookupFrom, advance, hlink]
        exact ih
    | @created links l name hl hnone hcreates =>
        obtain ⟨jump, hjump⟩ := hadvance links
        rw [hjump, advance, hnone, hcreates]
        exact if_pos (Tree.isDirectory_iff.mpr hl)

/-- A file is never written over a link. -/
theorem Leads.ne_symlink (h : fs.Leads creates links l path m) (hl : fs.Present l)
    (absolute : Bool) (target : Path ν) : fs.node m ≠ some (.symlink absolute target) := by
  induction h with
  | done links l => exact hl.ne_symlink absolute target
  | here _ _ ih => exact ih hl
  | parent _ _ ih => exact ih hl.dropLast
  | name _ hname _ ih => exact ih hname
  | link _ _ _ ih =>
      refine ih ?_
      split
      · exact .root fs
      · exact hl
  | created _ hnone _ =>
      rw [hnone]
      exact nofun

theorem Leads.append_name {name : ν} (h : fs.Leads false links l path m)
    (hm : fs.node m = some .directory) (hname : fs.Present (m ++ [name])) :
    fs.Leads creates links l (path ++ [.name name]) (m ++ [name]) := by
  induction h with
  | done links l => exact .name hm hname (.done links _)
  | here hl _ ih => exact .here hl (ih hm hname)
  | parent hl _ ih => exact .parent hl (ih hm hname)
  | name hl hpresent _ ih => exact .name hl hpresent (ih hm hname)
  | link hl hlink _ ih =>
      have hleads := ih hm hname
      rw [List.append_assoc] at hleads
      exact .link hl hlink hleads
  | created _ _ hcreates => cases hcreates

/-- A lookup of a path that goes on looks up where it goes on from. -/
theorem Leads.split (h : fs.Leads creates links l (path ++ rest) m) (hrest : rest ≠ []) :
    ∃ d k, k ≤ links ∧ fs.Leads false links l path d ∧ fs.Leads creates k d rest m := by
  generalize hwhole : path ++ rest = whole at h
  induction h generalizing path with
  | done links l => exact absurd (List.append_eq_nil_iff.mp hwhole).2 hrest
  | @here links l m rest' hl h ih =>
      cases path with
      | nil =>
          obtain rfl : rest = .here :: rest' := hwhole
          exact ⟨l, links, Nat.le_refl links, .done links l, .here hl h⟩
      | cons c path =>
          obtain ⟨rfl, rfl⟩ := List.cons.inj hwhole
          obtain ⟨d, k, hk, hpath, hd⟩ := ih rfl
          exact ⟨d, k, hk, .here hl hpath, hd⟩
  | @parent links l m rest' hl h ih =>
      cases path with
      | nil =>
          obtain rfl : rest = .parent :: rest' := hwhole
          exact ⟨l, links, Nat.le_refl links, .done links l, .parent hl h⟩
      | cons c path =>
          obtain ⟨rfl, rfl⟩ := List.cons.inj hwhole
          obtain ⟨d, k, hk, hpath, hd⟩ := ih rfl
          exact ⟨d, k, hk, .parent hl hpath, hd⟩
  | @name links l m name rest' hl hname h ih =>
      cases path with
      | nil =>
          obtain rfl : rest = .name name :: rest' := hwhole
          exact ⟨l, links, Nat.le_refl links, .done links l, .name hl hname h⟩
      | cons c path =>
          obtain ⟨rfl, rfl⟩ := List.cons.inj hwhole
          obtain ⟨d, k, hk, hpath, hd⟩ := ih rfl
          exact ⟨d, k, hk, .name hl hname hpath, hd⟩
  | @link links l m name absolute target rest' hl hlink h ih =>
      cases path with
      | nil =>
          obtain rfl : rest = .name name :: rest' := hwhole
          exact ⟨l, links + 1, Nat.le_refl _, .done _ l, .link hl hlink h⟩
      | cons c path =>
          obtain ⟨rfl, rfl⟩ := List.cons.inj hwhole
          obtain ⟨d, k, hk, hpath, hd⟩ := ih (List.append_assoc target path rest)
          exact ⟨d, k, Nat.le_succ_of_le hk, .link hl hlink hpath, hd⟩
  | @created links l name hl hnone hcreates =>
      cases path with
      | nil =>
          obtain rfl : rest = [.name name] := hwhole
          exact ⟨l, links, Nat.le_refl links, .done links l, .created hl hnone hcreates⟩
      | cons c path =>
          obtain ⟨-, hwhole⟩ := List.cons.inj hwhole
          exact absurd (List.append_eq_nil_iff.mp hwhole).2 hrest

/-- **What the system finds, a resolution finds**: it asks for less, and goes deeper. -/
theorem Leads.walk {d : Nat} (h : fs.Leads false links l path m) (hd : links ≤ d) :
    path.foldlM (fs.enter (fs.follow d)) l = .ok m := by
  induction h generalizing d with
  | done links l => rfl
  | here _ _ ih => exact ih hd
  | parent _ _ ih => exact ih hd
  | name _ hname _ ih =>
      rw [List.foldlM_cons, enter_name hname]
      exact ih hd
  | @link links l m name absolute target rest _ hlink _ ih =>
      obtain ⟨d, rfl⟩ := Nat.exists_eq_add_of_le' (Nat.le_trans (Nat.le_add_left 1 links) hd)
      have hwalk := ih (d := d) (Nat.le_of_succ_le_succ hd)
      rw [List.foldlM_append] at hwalk
      obtain ⟨p, hp, hrest⟩ := bind_eq_ok.mp hwalk
      rw [List.foldlM_cons, enter_symlink hlink]
      refine bind_eq_ok.mpr ⟨p, hp, ?_⟩
      exact foldlM_ok_mono (fun _ _ _ => (Extends.refl fs).enter fun _ _ _ => follow_succ) hrest
  | created _ _ hcreates => cases hcreates

/-- The same for the place of a file. -/
theorem Leads.seek {d : Nat} (h : fs.Leads creates links l path m) (hd : links ≤ d) :
    fs.seek d l path = .ok m := by
  have hseek : ∀ d, ∃ next, fs.seek d = fs.enterLast (fs.follow d) next := by
    intro d
    cases d with
    | zero => exact ⟨_, rfl⟩
    | succ d => exact ⟨_, rfl⟩
  induction h generalizing d with
  | done links l =>
      obtain ⟨next, hnext⟩ := hseek d
      rw [hnext]
      rfl
  | here _ _ ih =>
      obtain ⟨next, hnext⟩ := hseek d
      have hrest := ih hd
      rw [hnext] at hrest ⊢
      rw [enterLast_cons rfl nofun, hrest]
  | parent _ _ ih =>
      obtain ⟨next, hnext⟩ := hseek d
      have hrest := ih hd
      rw [hnext] at hrest ⊢
      rw [enterLast_cons rfl nofun, hrest]
  | name _ hname _ ih =>
      obtain ⟨next, hnext⟩ := hseek d
      have hrest := ih hd
      rw [hnext] at hrest ⊢
      rw [enterLast_cons (enter_name hname) ?_, hrest]
      rintro _ ⟨⟩
      exact hname
  | @link links l m name absolute target rest _ hlink _ ih =>
      obtain ⟨d, rfl⟩ := Nat.exists_eq_add_of_le' (Nat.le_trans (Nat.le_add_left 1 links) hd)
      have hwhole := ih (d := d) (Nat.le_of_succ_le_succ hd)
      change fs.enterLast _ (fs.seek d) l _ = _
      by_cases hrest : rest = []
      · subst hrest
        rw [List.append_nil] at hwhole
        have hparents : ([] : Path ν).foldlM (fs.enter (fs.follow (d + 1))) l = .ok l := rfl
        exact (enterLast_symlink hparents hlink).trans hwhole
      · obtain ⟨next, hnext⟩ := hseek d
        rw [hnext, enterLast_append _ target hrest] at hwhole
        obtain ⟨p, hp, hlast⟩ := bind_eq_ok.mp hwhole
        rw [← hnext] at hlast
        have henter : fs.enter (fs.follow (d + 1)) l (.name name) = .ok p := by
          rw [enter_symlink hlink]
          exact hp
        rw [← List.singleton_append, enterLast_append l [.name name] hrest, List.foldlM_cons, henter]
        exact seek_succ hlast
  | @created links l name _ hnone _ =>
      obtain ⟨next, hnext⟩ := hseek d
      have hparents : ([] : Path ν).foldlM (fs.enter (fs.follow d)) l = .ok l := rfl
      rw [hnext]
      exact enterLast_name hparents fun absolute target hlink => by cases hnone.symm.trans hlink

theorem Leads.names (names : List ν) (h : fs.Present (l ++ names)) :
    fs.Leads false links l (names.map .name) (l ++ names) := by
  induction names generalizing l with
  | nil =>
      rw [List.append_nil]
      exact .done links l
  | cons name rest ih =>
      obtain ⟨node, hnode, hlink⟩ := h
      have hl := Tree.node_of_append (hnode ▸ Option.some_ne_none node) (List.cons_ne_nil name rest)
      rw [← List.singleton_append, ← List.append_assoc] at hnode ⊢
      exact .name hl (.of_append ⟨node, hnode, hlink⟩) (ih ⟨node, hnode, hlink⟩)

end Leads

theorem lookup_eq_ok : fs.lookup path = .ok l ↔ fs.Leads false fs.limits.links [] path l :=
  lookupFrom_eq_ok

theorem resolve_of_lookup (h : fs.lookup path = .ok l) : fs.resolve path = .ok l :=
  (lookup_eq_ok.mp h).walk fs.limits.links_le_depth

theorem lookup_names (h : fs.Present l) : fs.lookup (l.map .name) = .ok l :=
  lookup_eq_ok.mpr (.names (l := []) l h)

theorem lookup_append_name {name : ν} (h : fs.lookup path = .ok l)
    (hl : fs.node l = some .directory) (hname : fs.Present (l ++ [name])) :
    fs.lookup (path ++ [.name name]) = .ok (l ++ [name]) :=
  lookup_eq_ok.mpr ((lookup_eq_ok.mp h).append_name hl hname)

theorem lookup_of_append {name : ν} (h : fs.lookup (path ++ [.name name]) = .ok m) :
    ∃ l, fs.lookup path = .ok l ∧ fs.node l = some .directory ∧ fs.node (l ++ [name]) ≠ none := by
  obtain ⟨l, links, -, hpath, hlast⟩ := (lookup_eq_ok.mp h).split (List.cons_ne_nil _ _)
  refine ⟨l, lookup_eq_ok.mpr hpath, ?_⟩
  cases hlast with
  | name hl hname _ =>
      obtain ⟨node, hnode, -⟩ := hname
      exact ⟨hl, hnode ▸ Option.some_ne_none node⟩
  | link hl hlink _ => exact ⟨hl, hlink ▸ Option.some_ne_none _⟩
  | created _ _ hcreates => cases hcreates

/-- The place of a new file is looked for from where its directory is. -/
theorem seek_of_locate {name : ν} (h : fs.lookup path = .ok l)
    (hlocate : fs.locate (path ++ [.name name]) = .ok m) :
    fs.seek fs.depth l [.name name] = .ok m := by
  obtain ⟨d, links, hlinks, hpath, hlast⟩ :=
    (lookupFrom_eq_ok.mp hlocate).split (List.cons_ne_nil _ _)
  obtain rfl := Except.ok.inj (h.symm.trans (lookup_eq_ok.mpr hpath))
  exact hlast.seek (Nat.le_trans hlinks fs.limits.links_le_depth)

/-- A file that is no link is opened where it is, or where it would be. -/
theorem seek_name {name : ν} (d : Nat)
    (hnode : ∀ absolute target, fs.node (l ++ [name]) ≠ some (.symlink absolute target)) :
    fs.seek d l [.name name] = .ok (l ++ [name]) := by
  have hparents : ∀ follow, ([] : Path ν).foldlM (fs.enter follow) l = .ok l := fun _ => rfl
  cases d with
  | zero => exact enterLast_name (hparents _) hnode
  | succ d => exact enterLast_name (hparents _) hnode

theorem pathExists_iff : fs.pathExists path = true ↔ ∃ l, fs.lookup path = .ok l := by
  unfold pathExists
  cases fs.lookup path with
  | error error => simp
  | ok l => simp

theorem read_ok (h : fs.read path = .ok content) :
    ∃ l, fs.lookup path = .ok l ∧ fs.node l = some (.file content) := by
  obtain ⟨l, hl, h⟩ := bind_eq_ok.mp h
  unfold readAt at h
  split at h
  · rename_i hnode
    cases h
    exact ⟨l, hl, hnode⟩
  · cases h

theorem entry_append_name (path : Path ν) (name : ν) :
    fs.entry (path ++ [.name name]) = (fs.lookup path).map fun l => l ++ [name] := by
  rw [entry, List.getLast?_concat, List.dropLast_concat]
  cases fs.lookup path with
  | error error => rfl
  | ok l => rfl

/-- Nothing is there, or an empty directory. -/
def Vacant (fs : FileSystem ν β) (l : Location ν) : Prop :=
  (fs.node l = none ∨ fs.node l = some .directory) ∧ ∀ name, fs.node (l ++ [name]) = none

theorem vacant_of_none (h : fs.node l = none) : fs.Vacant l :=
  ⟨.inl h, fun _ => node_below h (List.prefix_append l _)⟩

theorem Vacant.eq_of_isPrefix {node : Node ν β} (h : fs.Vacant l) (hm : fs.node m = some node)
    (hpre : l <+: m) : m = l ∧ node = .directory := by
  obtain ⟨rest, rfl⟩ := hpre
  cases rest with
  | nil =>
      rw [List.append_nil] at hm
      refine ⟨List.append_nil l, ?_⟩
      rcases h.1 with hnone | hdirectory
      · rw [hnone] at hm
        cases hm
      · rw [hdirectory] at hm
        exact (Option.some.inj hm).symm
  | cons name rest =>
      have hbelow := node_below (h.2 name) ⟨rest, List.append_assoc l [name] rest⟩
      rw [show l ++ name :: rest = l ++ ([name] ++ rest) from rfl, hbelow] at hm
      cases hm

variable {refusals : Refusals ν} {change : Change ν}

theorem permit_eq_ok {u : Unit} : permit refusals change = .ok u ↔ refusals change = none := by
  unfold permit
  cases refusals change with
  | none => simp
  | some error => simp

/-- Nothing in the tree is deeper than its height. -/
theorem length_le_height {t : Tree ν β} {q : Location ν} (h : t.node q ≠ none) :
    q.length ≤ t.height := by
  have hmem := List.mem_map_of_mem (f := List.length) (t.listed q h)
  unfold Tree.height
  generalize t.locations.map List.length = lengths at hmem
  induction lengths with
  | nil => cases hmem
  | cons n rest ih =>
      rw [List.foldr_cons]
      rcases List.mem_cons.mp hmem with rfl | hrest
      · exact Nat.le_max_left _ _
      · exact Nat.le_trans (ih hrest) (Nat.le_max_right _ _)

theorem abspath_append_name (path : Path ν) (name : ν) :
    abspath (path ++ [.name name]) = abspath path ++ [.name name] :=
  List.foldl_append

variable [DecidableEq ν]

theorem sameKinds_overwrite (fs : FileSystem ν β) (l : Location ν) (content : β) :
    fs.SameKinds (fs.overwrite l content) where
  limits := rfl
  kind q := by
    have hkind : (fun node : Node ν β => (node.withContent content).kind) = Node.kind := by
      funext node
      cases node <;> rfl
    by_cases hq : q = l
    · rw [show (fs.overwrite l content).node q = _ from if_pos hq, Option.map_map,
        Function.comp_def, hkind]
    · rw [show (fs.overwrite l content).node q = _ from if_neg hq]

theorem overwrite_self (h : fs.node l = some (.file content)) (content' : β) :
    (fs.overwrite l content').node l = some (.file content') := by
  simp [overwrite, h, Node.withContent]

theorem overwrite_of_ne (h : m ≠ l) (content : β) :
    (fs.overwrite l content).node m = fs.node m :=
  if_neg h

/-! ### Changes -/

theorem put_ok {s : Tree ν β} (h : fs.put l s = .ok fs') :
    l ≠ [] ∧ fs'.limits = fs.limits ∧
      ∀ q, fs'.node q = if l <+: q then s.node (q.drop l.length) else fs.node q := by
  unfold put at h
  split at h
  · rename_i hl
    obtain rfl := Except.ok.inj h
    exact ⟨hl.1, rfl, fun _ => rfl⟩
  · cases h

theorem node_put_append {s : Tree ν β} (h : fs.put l s = .ok fs') (q : Location ν) :
    fs'.node (l ++ q) = s.node q := by
  rw [(put_ok h).2.2, if_pos (List.prefix_append l q), List.drop_left]

theorem node_put_of_ne {s : Tree ν β} (h : fs.put l s = .ok fs') (hm : ¬l <+: m) :
    fs'.node m = fs.node m := by
  rw [(put_ok h).2.2, if_neg hm]

theorem node_remove (h : l ≠ []) (q : Location ν) :
    (fs.remove l h).node q = if l <+: q then none else fs.node q :=
  rfl

variable {mid : FileSystem ν β}

/-- A directory takes the place of nothing, or of an empty directory. -/
theorem Extends.put {s : Tree ν β} (h : fs.Extends mid) (hl : fs.Vacant l)
    (hs : s.node [] = some .directory) (hput : mid.put l s = .ok fs') : fs.Extends fs' where
  limits := (put_ok hput).2.1.trans h.limits
  node m node hm := by
    by_cases hpre : l <+: m
    · obtain ⟨rfl, rfl⟩ := hl.eq_of_isPrefix hm hpre
      have hroot := node_put_append hput []
      rwa [List.append_nil, hs] at hroot
    · rw [node_put_of_ne hput hpre]
      exact h.node m node hm

theorem Extends.remove (h : fs.Extends mid) (hl : fs.node l = none) (hne : l ≠ []) :
    fs.Extends (mid.remove l hne) where
  limits := h.limits
  node m node hm := by
    rw [node_remove, if_neg (not_isPrefix_of_node hl hm)]
    exact h.node m node hm

theorem makeDirectory_ok (h : fs.makeDirectory refusals path = .ok fs') :
    ∃ l, fs.entry path = .ok l ∧ fs.node l = none ∧ fs.put l (.leaf .directory) = .ok fs' := by
  obtain ⟨l, hl, h⟩ := bind_eq_ok.mp h
  split at h
  · cases h
  · rename_i hnone
    obtain ⟨-, -, h⟩ := bind_eq_ok.mp h
    exact ⟨l, hl, Option.not_isSome_iff_eq_none.mp hnone, h⟩

theorem Extends.makeDirectory (h : fs.Extends mid)
    (hmake : mid.makeDirectory refusals path = .ok fs') : fs.Extends fs' := by
  obtain ⟨l, -, hnone, hput⟩ := makeDirectory_ok hmake
  exact h.put (vacant_of_none (h.node_eq_none hnone)) rfl hput

theorem Extends.makeDirectories {paths : List (Path ν)} (h : fs.Extends mid) :
    fs.Extends (mid.makeDirectories refusals paths).2 := by
  induction paths generalizing mid with
  | nil => exact h
  | cons path rest ih =>
      rw [FileSystem.makeDirectories]
      split
      · rename_i next hnext
        exact ih (h.makeDirectory hnext)
      · split
        · exact ih h
        · exact h

theorem put_eq_ok {s : Tree ν β} (hl : l ≠ []) (hparent : fs.node l.dropLast = some .directory) :
    ∃ fs', fs.put l s = .ok fs' := by
  unfold put
  rw [dif_pos ⟨hl, Tree.isDirectory_iff.mpr hparent⟩]
  exact ⟨_, rfl⟩

theorem parent_of_put {s : Tree ν β} (h : fs.put l s = .ok fs') :
    fs.node l.dropLast = some .directory := by
  unfold put at h
  split at h
  · rename_i hl
    exact Tree.isDirectory_iff.mp hl.2
  · cases h

theorem writeText_eq_ok : fs.writeText refusals path content = .ok fs' ↔
    ∃ l, fs.locate path = .ok l ∧ fs.node l ≠ some .directory ∧
      refusals (.write l) = none ∧ fs.put l (.leaf (.file content)) = .ok fs' := by
  constructor
  · intro h
    obtain ⟨l, hl, h⟩ := bind_eq_ok.mp h
    split at h
    · cases h
    · rename_i hdirectory
      obtain ⟨_, hpermit, h⟩ := bind_eq_ok.mp h
      exact ⟨l, hl, fun hnode => hdirectory (Tree.isDirectory_iff.mpr hnode),
        permit_eq_ok.mp hpermit, h⟩
  · rintro ⟨l, hl, hdirectory, hpermit, hput⟩
    refine bind_eq_ok.mpr ⟨l, hl, ?_⟩
    rw [if_neg fun hnode => hdirectory (Tree.isDirectory_iff.mp hnode)]
    exact bind_eq_ok.mpr ⟨(), permit_eq_ok.mpr hpermit, hput⟩

theorem mem_children {t : Tree ν β} {q : Location ν} :
    q ∈ t.children l ↔ ∃ name, q = l ++ [name] ∧ t.node q ≠ none := by
  rw [Tree.children, List.mem_dedup, List.mem_filter, decide_eq_true_iff,
    Option.isSome_iff_ne_none]
  constructor
  · rintro ⟨-, hne, rfl, hnode⟩
    exact ⟨q.getLast hne, (List.dropLast_append_getLast hne).symm, hnode⟩
  · rintro ⟨name, rfl, hnode⟩
    exact ⟨t.listed _ hnode, by simp, List.dropLast_concat, hnode⟩

theorem isEmpty_children : (fs.children l).isEmpty = true ↔ ∀ name, fs.node (l ++ [name]) = none := by
  rw [List.isEmpty_iff, List.eq_nil_iff_forall_not_mem]
  constructor
  · intro h name
    by_contra hnode
    exact h _ (mem_children.mpr ⟨name, rfl, hnode⟩)
  · intro h q hq
    obtain ⟨name, rfl, hnode⟩ := mem_children.mp hq
    exact hnode (h name)

theorem makesWay_directory : fs.makesWay l .directory = .ok () ↔ fs.Vacant l := by
  unfold makesWay Vacant
  cases hnode : fs.node l with
  | none => simpa using fun name => node_below hnode (List.prefix_append l [name])
  | some node =>
      cases node with
      | directory => simp [← isEmpty_children]
      | file content => simp
      | symlink absolute target => simp

theorem replace_eq_ok {source target : Path ν} (hsource : fs.entry source = .ok l)
    (htarget : fs.entry target = .ok m) (hnode : fs.node l = some .directory) (hne : l ≠ m)
    (hl : l ≠ []) (hm : ¬l <+: m) : fs.replace refusals source target = .ok fs' ↔
      fs.Vacant m ∧ refusals (.rename l m) = none ∧
        (fs.remove l hl).put m (fs.subtree l) = .ok fs' := by
  unfold replace
  simp only [hsource, htarget, hnode, hne, hl, hm, bind_eq_ok, Except.ok.injEq, exists_eq_left',
    if_false, dite_false]
  rw [← makesWay_directory, ← permit_eq_ok (u := ())]
  constructor
  · rintro ⟨_, hway, _, hpermit, hput⟩
    exact ⟨hway, hpermit, hput⟩
  · rintro ⟨hway, hpermit, hput⟩
    exact ⟨(), hway, (), hpermit, hput⟩

/-! ### Removals -/

theorem removeAll_node {ls : List (Location ν)} {outcome : Except OsError Unit}
    (h : removeAll refusals ls fs = (outcome, fs')) :
    fs'.limits = fs.limits ∧ ∀ q, (∀ l ∈ ls, ¬l <+: q) → fs'.node q = fs.node q := by
  induction ls generalizing fs with
  | nil =>
      cases h
      exact ⟨rfl, fun _ _ => rfl⟩
  | cons l rest ih =>
      rw [removeAll] at h
      split at h
      · cases h
        exact ⟨rfl, fun _ _ => rfl⟩
      · split at h
        · cases h
          exact ⟨rfl, fun _ _ => rfl⟩
        · rename_i hl
          obtain ⟨hlimits, hnode⟩ := ih h
          refine ⟨hlimits, fun q hq => ?_⟩
          rw [hnode q fun l' hl' => hq l' (List.mem_cons_of_mem l hl'), node_remove,
            if_neg (hq l List.mem_cons_self)]

theorem removeAll_append {before after : List (Location ν)} :
    removeAll refusals (before ++ after) fs =
      match removeAll refusals before fs with
      | (.ok (), next) => removeAll refusals after next
      | (.error error, next) => (.error error, next) := by
  induction before generalizing fs with
  | nil => rfl
  | cons l rest ih =>
      rw [List.cons_append, removeAll, removeAll]
      split
      · rfl
      · split
        · rfl
        · exact ih

/-- The removals go through when none of them is refused. -/
theorem removeAll_ok {ls : List (Location ν)} (hroot : [] ∉ ls) :
    (removeAll refusals ls fs).1 = .ok () ↔ ∀ l ∈ ls, refusals (.remove l) = none := by
  induction ls generalizing fs with
  | nil => simp [removeAll]
  | cons l rest ih =>
      have hl : l ≠ [] := fun heq => hroot (heq ▸ List.mem_cons_self)
      rw [removeAll, List.forall_mem_cons]
      cases hrefused : refusals (.remove l) with
      | some error => simp
      | none =>
          rw [dif_neg hl, ih fun hrest => hroot (List.mem_cons_of_mem l hrest)]
          simp

theorem mem_postOrder {t : Tree ν β} {depth : Nat} {q : Location ν}
    (h : q ∈ t.postOrder depth l) : q = l ∨ ∃ name, l ++ [name] <+: q ∧ t.node q ≠ none := by
  induction depth generalizing l with
  | zero => exact .inl (List.mem_singleton.mp h)
  | succ depth ih =>
      rcases List.mem_append.mp h with hbelow | hself
      · obtain ⟨child, hchild, hq⟩ := List.mem_flatMap.mp hbelow
        obtain ⟨name, rfl, hnode⟩ := mem_children.mp hchild
        refine .inr ⟨name, ?_⟩
        rcases ih hq with rfl | ⟨name', hpre, hq⟩
        · exact ⟨List.prefix_refl _, hnode⟩
        · exact ⟨(List.prefix_append _ _).trans hpre, hq⟩
      · exact .inl (List.mem_singleton.mp hself)

theorem postOrder_mem {t : Tree ν β} {depth : Nat} {rest : Location ν}
    (hnode : t.node (l ++ rest) ≠ none) (hdepth : rest.length ≤ depth) :
    l ++ rest ∈ t.postOrder depth l := by
  induction depth generalizing l rest with
  | zero =>
      rw [List.length_eq_zero_iff.mp (Nat.le_zero.mp hdepth), List.append_nil]
      exact List.mem_singleton_self l
  | succ depth ih =>
      cases rest with
      | nil =>
          rw [List.append_nil]
          exact List.mem_append_right _ (List.mem_singleton_self l)
      | cons name rest =>
          have happend : l ++ name :: rest = l ++ [name] ++ rest := by simp
          rw [happend] at hnode ⊢
          have hchild : t.node (l ++ [name]) ≠ none := by
            by_cases hrest : rest = []
            · rwa [hrest, List.append_nil] at hnode
            · rw [Tree.node_of_append hnode hrest]
              exact Option.some_ne_none _
          refine List.mem_append_left _ (List.mem_flatMap.mpr
            ⟨l ++ [name], mem_children.mpr ⟨name, rfl, hchild⟩, ih hnode ?_⟩)
          simpa using hdepth

/-- The last of all is the directory itself. -/
theorem postOrder_eq (t : Tree ν β) (depth : Nat) (l : Location ν) :
    ∃ below, t.postOrder depth l = below ++ [l] ∧ ∀ q ∈ below, ∃ name, l ++ [name] <+: q := by
  cases depth with
  | zero =>
      refine ⟨[], rfl, fun q hq => ?_⟩
      cases hq
  | succ depth =>
      refine ⟨_, rfl, fun q hq => ?_⟩
      obtain ⟨child, hchild, hq⟩ := List.mem_flatMap.mp hq
      obtain ⟨name, rfl, -⟩ := mem_children.mp hchild
      refine ⟨name, ?_⟩
      rcases mem_postOrder hq with rfl | ⟨name', hpre, -⟩
      · exact List.prefix_refl _
      · exact (List.prefix_append _ _).trans hpre

/-- **What a removal of a directory does**, wherever it ends. -/
structure Removes (refusals : Refusals ν) (fs fs' : FileSystem ν β) (l : Location ν)
    (outcome : Except OsError Unit) : Prop where
  limits : fs'.limits = fs.limits
  others : ∀ q, ¬l <+: q → fs'.node q = fs.node q
  ok_iff : outcome = .ok () ↔ ∀ q, l <+: q → fs.node q ≠ none → refusals (.remove q) = none
  gone : outcome = .ok () → fs'.node l = none
  kept : outcome ≠ .ok () → fs'.node l = some .directory

theorem rmtree_removes {outcome : Except OsError Unit} (hentry : fs.entry path = .ok l)
    (hnode : fs.node l = some .directory) (hl : l ≠ [])
    (h : fs.rmtree refusals path = (outcome, fs')) : Removes refusals fs fs' l outcome := by
  unfold rmtree at h
  rw [hentry] at h
  dsimp only at h
  rw [hnode] at h
  dsimp only at h
  have hvisits : ∀ q, q ∈ fs.postOrder fs.height l ↔ l <+: q ∧ fs.node q ≠ none := by
    intro q
    constructor
    · intro hq
      rcases mem_postOrder hq with rfl | ⟨name, hpre, hq⟩
      · exact ⟨List.prefix_refl _, hnode ▸ Option.some_ne_none _⟩
      · exact ⟨(List.prefix_append _ _).trans hpre, hq⟩
    · rintro ⟨⟨rest, rfl⟩, hq⟩
      have hheight := length_le_height hq
      rw [List.length_append] at hheight
      exact postOrder_mem hq (by omega)
  have hok : outcome = .ok () ↔ ∀ q, l <+: q → fs.node q ≠ none → refusals (.remove q) = none := by
    have hroot : [] ∉ fs.postOrder fs.height l := fun hmem =>
      hl (List.prefix_nil.mp ((hvisits []).mp hmem).1)
    have hall : (removeAll refusals (fs.postOrder fs.height l) fs).1 = .ok () ↔ _ :=
      removeAll_ok hroot
    rw [h] at hall
    rw [hall]
    exact ⟨fun hnone q hpre hq => hnone q ((hvisits q).mpr ⟨hpre, hq⟩),
      fun hnone q hq => hnone q ((hvisits q).mp hq).1 ((hvisits q).mp hq).2⟩
  obtain ⟨hlimits, hothers⟩ := removeAll_node h
  obtain ⟨below, hbelow, hproper⟩ := postOrder_eq fs.toTree fs.height l
  have hself : ∀ {outcome : Except OsError Unit} {next : FileSystem ν β},
      removeAll refusals below fs = (outcome, next) → next.node l = some .directory := by
    intro outcome next hnext
    rw [(removeAll_node hnext).2 l fun q hq hpre => ?_, hnode]
    obtain ⟨name, hname⟩ := hproper q hq
    have hle := (hname.trans hpre).length_le
    rw [List.length_append, List.length_singleton] at hle
    omega
  rw [hbelow, removeAll_append] at h
  refine ⟨hlimits, fun q hq => hothers q fun l' hl' hpre => ?_, hok, fun houtcome => ?_,
    fun houtcome => ?_⟩
  · exact hq (((hvisits l').mp hl').1.trans hpre)
  · split at h
    · rw [removeAll, hok.mp houtcome l (List.prefix_refl _) (hnode ▸ Option.some_ne_none _)] at h
      rw [dif_neg hl, removeAll] at h
      cases h
      rw [node_remove, if_pos (List.prefix_refl _)]
    · cases h
      cases houtcome
  · split at h
    · rename_i next hnext
      rw [removeAll] at h
      split at h
      · cases h
        exact hself hnext
      · rw [dif_neg hl, removeAll] at h
        cases h
        exact absurd rfl houtcome
    · rename_i error next hnext
      cases h
      exact hself hnext

end FileSystem

end RerankerService.Files
