import RerankerService.Foundation.Resolution

/-!
# Files that are written

Writing a file may create it or change its content, at the end of a chain of links. Whatever a path
led to is where it was.
-/

namespace RerankerService.Files

open Outcome

variable {ν β : Type}

/-- At most the content of a file is new, and then it is one of `P`. -/
inductive Written (P : β → Prop) : Option (Node ν β) → Option (Node ν β) → Prop where
  | same (node : Option (Node ν β)) : Written P node node
  | created {content : β} (h : P content) : Written P none (some (.file content))
  | overwritten (old : β) {content : β} (h : P content) :
      Written P (some (.file old)) (some (.file content))

variable {P : β → Prop}

theorem Written.symlink {absolute : Bool} {target : Path ν} {node : Option (Node ν β)}
    (h : Written P (some (.symlink absolute target)) node) :
    node = some (.symlink absolute target) := by
  cases h with
  | same => rfl

theorem Written.of_symlink {absolute : Bool} {target : Path ν} {node : Option (Node ν β)}
    (h : Written P node (some (.symlink absolute target))) :
    node = some (.symlink absolute target) := by
  cases h with
  | same => rfl

theorem Written.eq_none {node : Option (Node ν β)} (h : Written P node none) : node = none := by
  cases h with
  | same => rfl

theorem Written.trans {node node' node'' : Option (Node ν β)} (h : Written P node node')
    (h' : Written P node' node'') : Written P node node'' := by
  cases h with
  | same => exact h'
  | created hcontent =>
      cases h' with
      | same => exact .created hcontent
      | overwritten _ hcontent => exact .created hcontent
  | overwritten old hcontent =>
      cases h' with
      | same => exact .overwritten old hcontent
      | overwritten _ hcontent => exact .overwritten old hcontent

theorem Written.directory_iff {node node' : Option (Node ν β)} (h : Written P node node') :
    node' = some .directory ↔ node = some .directory := by
  cases h with
  | same => rfl
  | created hcontent => simp
  | overwritten old hcontent => simp

theorem Written.present {node : Node ν β} {node' : Option (Node ν β)}
    (h : Written P (some node) node') (hlink : node.isSymlink = false) :
    ∃ other, node' = some other ∧ other.isSymlink = false := by
  cases h with
  | same => exact ⟨node, rfl, hlink⟩
  | overwritten old hcontent => exact ⟨_, rfl, rfl⟩

theorem Written.file {old : β} {node : Option (Node ν β)} (h : Written P (some (.file old)) node) :
    ∃ content, node = some (.file content) ∧ (content = old ∨ P content) := by
  cases h with
  | same => exact ⟨old, rfl, .inl rfl⟩
  | overwritten _ hcontent => exact ⟨_, rfl, .inr hcontent⟩

namespace FileSystem

variable {fs fs' : FileSystem ν β} {l m : Location ν} {path : Path ν} {content : β}

theorem eq_of_enter {follow : Location ν → Path ν → Except OsError (Location ν)} {name : ν}
    (h : ∀ absolute target, fs.node (l ++ [name]) ≠ some (.symlink absolute target))
    (henter : fs.enter follow l (.name name) = .ok m) : m = l ++ [name] := by
  cases hnode : fs.node (l ++ [name]) with
  | none =>
      rw [enter_none hnode] at henter
      cases henter
  | some node =>
      cases node with
      | symlink absolute target => exact absurd hnode (h absolute target)
      | file content =>
          rw [enter_name ⟨_, hnode, rfl⟩] at henter
          exact (Except.ok.inj henter).symm
      | directory =>
          rw [enter_name ⟨_, hnode, rfl⟩] at henter
          exact (Except.ok.inj henter).symm

/-- What `fs` has is still there, up to the content of files. -/
structure Keeps (P : β → Prop) (fs fs' : FileSystem ν β) : Prop where
  limits : fs'.limits = fs.limits
  node : ∀ l node, fs.node l = some node → Written P (some node) (fs'.node l)

theorem Keeps.depth (h : fs.Keeps P fs') : fs'.depth = fs.depth :=
  congrArg Limits.depth h.limits

theorem Extends.keeps (h : fs.Extends fs') : fs.Keeps P fs' where
  limits := h.limits
  node l node hnode := by
    rw [h.node l node hnode]
    exact .same _

theorem Keeps.trans {mid : FileSystem ν β} (h : fs.Keeps P mid) (h' : mid.Keeps P fs') :
    fs.Keeps P fs' where
  limits := h'.limits.trans h.limits
  node l node hnode := by
    have hmid := h.node l node hnode
    cases hother : mid.node l with
    | none =>
        rw [hother] at hmid
        cases hmid.eq_none
    | some other =>
        rw [hother] at hmid
        exact hmid.trans (h'.node l other hother)

theorem Keeps.enter (h : fs.Keeps P fs')
    {follow follow' : Location ν → Path ν → Except OsError (Location ν)}
    (hfollow : ∀ l path m, follow l path = .ok m → follow' l path = .ok m) {c : Component ν}
    (henter : fs.enter follow l c = .ok m) : fs'.enter follow' l c = .ok m := by
  cases c with
  | here => exact henter
  | parent => exact henter
  | name name =>
      cases hnode : fs.node (l ++ [name]) with
      | none =>
          rw [enter_none hnode] at henter
          cases henter
      | some node =>
          have hwritten := h.node _ _ hnode
          cases hlink : node.isSymlink with
          | true =>
              cases node with
              | symlink absolute target =>
                  rw [enter_symlink hnode] at henter
                  rw [enter_symlink hwritten.symlink]
                  exact hfollow _ _ _ henter
              | file content => cases hlink
              | directory => cases hlink
          | false =>
              rw [enter_name ⟨node, hnode, hlink⟩] at henter
              rw [enter_name (hwritten.present hlink), henter]

theorem Keeps.follow (h : fs.Keeps P fs') {d : Nat}
    (hfollow : fs.follow d l path = .ok m) : fs'.follow d l path = .ok m := by
  induction d generalizing l path m with
  | zero => cases hfollow
  | succ d ih => exact foldlM_ok_mono (fun _ _ _ => h.enter fun _ _ _ => ih) hfollow

theorem Keeps.resolve (h : fs.Keeps P fs') (hresolve : fs.resolve path = .ok l) :
    fs'.resolve path = .ok l := by
  have hfollow := h.follow (d := fs.depth + 1) hresolve
  rwa [← h.depth] at hfollow

theorem Keeps.directory (h : fs.Keeps P fs') (hl : fs.node l = some .directory) :
    fs'.node l = some .directory :=
  (h.node l .directory hl).directory_iff.mpr rfl

theorem Keeps.leads (h : fs.Keeps P fs') {links : Nat} (hleads : fs.Leads false links l path m) :
    fs'.Leads false links l path m := by
  induction hleads with
  | done links l => exact .done links l
  | here hl _ ih => exact .here (h.directory hl) ih
  | parent hl _ ih => exact .parent (h.directory hl) ih
  | name hl hname _ ih =>
      obtain ⟨node, hnode, hlink⟩ := hname
      exact .name (h.directory hl) ((h.node _ node hnode).present hlink) ih
  | link hl hlink _ ih => exact .link (h.directory hl) (h.node _ _ hlink).symlink ih
  | created _ _ hcreates => cases hcreates

theorem Keeps.lookup (h : fs.Keeps P fs') (hlookup : fs.lookup path = .ok l) :
    fs'.lookup path = .ok l := by
  rw [lookup_eq_ok] at hlookup ⊢
  rw [h.limits]
  exact h.leads hlookup

theorem Keeps.pathExists (h : fs.Keeps P fs') (hexists : fs.pathExists path = true) :
    fs'.pathExists path = true := by
  obtain ⟨l, hl⟩ := pathExists_iff.mp hexists
  exact pathExists_iff.mpr ⟨l, h.lookup hl⟩

theorem Extends.lookup (h : fs.Extends fs') (hlookup : fs.lookup path = .ok l) :
    fs'.lookup path = .ok l :=
  (h.keeps (P := fun _ => False)).lookup hlookup

theorem Keeps.entry (h : fs.Keeps P fs') (hentry : fs.entry path = .ok l) :
    fs'.entry path = .ok l := by
  unfold FileSystem.entry at hentry ⊢
  split at hentry
  · obtain ⟨parent, hparent, hl⟩ := bind_eq_ok.mp hentry
    exact bind_eq_ok.mpr ⟨parent, h.lookup hparent, hl⟩
  · exact h.lookup hentry

theorem Keeps.node_eq_none (h : fs.Keeps P fs') (hl : fs'.node l = none) : fs.node l = none := by
  cases hnode : fs.node l with
  | none => rfl
  | some node =>
      have hwritten := h.node l node hnode
      rw [hl] at hwritten
      exact hwritten.eq_none

/-- The two differ in the content of files, and in files that only the second has. -/
structure Writes (P : β → Prop) (fs fs' : FileSystem ν β) : Prop where
  limits : fs'.limits = fs.limits
  node : ∀ l, Written P (fs.node l) (fs'.node l)

theorem Writes.refl (fs : FileSystem ν β) : fs.Writes P fs :=
  ⟨rfl, fun l => .same (fs.node l)⟩

theorem Writes.keeps (h : fs.Writes P fs') : fs.Keeps P fs' where
  limits := h.limits
  node l _ hnode := hnode ▸ h.node l

variable {mid : FileSystem ν β}

theorem Keeps.vacant (h : fs.Keeps P mid) (hl : mid.Vacant l) : fs.Vacant l := by
  refine ⟨?_, fun name => h.node_eq_none (hl.2 name)⟩
  cases hnode : fs.node l with
  | none => exact .inl rfl
  | some node =>
      have hwritten := h.node l node hnode
      rcases hl.1 with hnone | hdirectory
      · rw [hnone] at hwritten
        cases hwritten.eq_none
      · exact .inr (hwritten.directory_iff.mp hdirectory)

theorem Keeps.removes {refusals : Refusals ν} {outcome : Except OsError Unit}
    (h : fs.Keeps P mid) (hl : fs.node l = none) (hremoves : Removes refusals mid fs' l outcome) :
    fs.Keeps P fs' where
  limits := hremoves.limits.trans h.limits
  node m node hm := by
    rw [hremoves.others m (not_isPrefix_of_node hl hm)]
    exact h.node m node hm

variable [DecidableEq ν] {s : Tree ν β}

theorem Keeps.put (h : fs.Keeps P mid) (hl : fs.Vacant l) (hs : s.node [] = some .directory)
    (hput : mid.put l s = .ok fs') : fs.Keeps P fs' where
  limits := (put_ok hput).2.1.trans h.limits
  node m node hm := by
    by_cases hpre : l <+: m
    · obtain ⟨rfl, rfl⟩ := hl.eq_of_isPrefix hm hpre
      have hroot := node_put_append hput []
      rw [List.append_nil, hs] at hroot
      rw [hroot]
      exact .same _
    · rw [node_put_of_ne hput hpre]
      exact h.node m node hm

theorem Keeps.remove (h : fs.Keeps P mid) (hl : fs.node l = none) (hne : l ≠ []) :
    fs.Keeps P (mid.remove l hne) where
  limits := h.limits
  node m node hm := by
    rw [node_remove, if_neg (not_isPrefix_of_node hl hm)]
    exact h.node m node hm

theorem writeText_writes {refusals : Refusals ν} (h : fs.writeText refusals path content = .ok fs')
    (hcontent : P content) :
    ∃ l, fs.locate path = .ok l ∧ fs.node l ≠ some .directory ∧
      fs'.node l = some (.file content) ∧ (∀ q, q ≠ l → fs'.node q = fs.node q) ∧
      fs.Writes P fs' := by
  obtain ⟨l, hl, hdirectory, -, hput⟩ := writeText_eq_ok.mp h
  have hlink := (lookupFrom_eq_ok.mp hl).ne_symlink (.root fs)
  have hself : fs'.node l = some (.file content) := by
    have hnode := node_put_append hput []
    rwa [List.append_nil] at hnode
  have hothers : ∀ q, q ≠ l → fs'.node q = fs.node q := by
    intro q hq
    by_cases hpre : l <+: q
    · obtain ⟨rest, rfl⟩ := hpre
      have hrest : rest ≠ [] := by
        rintro rfl
        exact hq (List.append_nil l)
      have hnone : fs.node (l ++ rest) = none := by
        by_contra hnode
        exact hdirectory (Tree.node_of_append hnode hrest)
      rw [node_put_append hput, hnone]
      exact if_neg (by simpa using hrest)
    · exact node_put_of_ne hput hpre
  refine ⟨l, hl, hdirectory, hself, hothers, (put_ok hput).2.1, fun q => ?_⟩
  by_cases hq : q = l
  · subst hq
    rw [hself]
    cases hnode : fs.node q with
    | none => exact .created hcontent
    | some node =>
        cases node with
        | file old => exact .overwritten old hcontent
        | directory => exact absurd hnode hdirectory
        | symlink absolute target => exact absurd hnode (hlink absolute target)
  · rw [hothers q hq]
    exact .same _

end FileSystem

end RerankerService.Files
