import Mathlib.Data.Countable.Basic
import Mathlib.Data.Nat.Pairing

/-!
# JSON values

Values over any types of strings and numbers. An object is the list of its properties; one that is
well formed has them in the order of their names, so that equality of objects does not depend on the
order in which properties were set.
-/

namespace RerankerService

inductive Json (σ ν : Type) where
  | null
  | bool (value : Bool)
  | number (value : ν)
  | string (value : σ)
  | array (items : List (Json σ ν))
  | object (properties : List (σ × Json σ ν))

namespace Json

variable {σ ν : Type}

/-- Induction with hypotheses for all items and all properties. -/
@[elab_as_elim]
theorem induct {motive : Json σ ν → Prop} (null : motive .null) (bool : ∀ b, motive (.bool b))
    (number : ∀ x, motive (.number x)) (string : ∀ s, motive (.string s))
    (array : ∀ items, (∀ v ∈ items, motive v) → motive (.array items))
    (object : ∀ properties, (∀ p ∈ properties, motive p.2) → motive (.object properties))
    (v : Json σ ν) : motive v :=
  @Json.rec σ ν motive (fun items => ∀ v ∈ items, motive v)
    (fun properties => ∀ p ∈ properties, motive p.2) (fun p => motive p.2)
    null bool number string array object nofun
    (fun _ _ hhead htail => List.forall_mem_cons.mpr ⟨hhead, htail⟩) nofun
    (fun _ _ hhead htail => List.forall_mem_cons.mpr ⟨hhead, htail⟩) (fun _ _ h => h) v

/-- Neither `null` nor an array nor a scalar. -/
def isRecord : Json σ ν → Bool
  | .object _ => true
  | _ => false

/-- The property of an object; other values have none. -/
def get? [DecidableEq σ] (name : σ) : Json σ ν → Option (Json σ ν)
  | .object properties => properties.lookup name
  | _ => none

/-- Every object has each property once, in the order of the names. -/
inductive WellFormed [LT σ] : Json σ ν → Prop where
  | null : WellFormed .null
  | bool (b : Bool) : WellFormed (.bool b)
  | number (x : ν) : WellFormed (.number x)
  | string (s : σ) : WellFormed (.string s)
  | array {items : List (Json σ ν)} (h : ∀ v ∈ items, WellFormed v) : WellFormed (.array items)
  | object {properties : List (σ × Json σ ν)}
      (hnames : (properties.map Prod.fst).Pairwise (· < ·))
      (h : ∀ p ∈ properties, WellFormed p.2) : WellFormed (.object properties)

section Properties

variable [DecidableEq σ] [LT σ] {v w : Json σ ν} {name : σ}

theorem WellFormed.get? (h : v.WellFormed) (hget : v.get? name = some w) : w.WellFormed := by
  cases h with
  | object _ hproperties =>
      obtain ⟨rest, rest', hsplit, -⟩ := List.lookup_eq_some_iff.mp hget
      exact hproperties (name, w) (hsplit ▸ List.mem_append_right rest List.mem_cons_self)
  | _ => cases hget

omit [DecidableEq σ] in
theorem WellFormed.items {items : List (Json σ ν)} (h : (Json.array items).WellFormed) :
    ∀ v ∈ items, v.WellFormed := by
  cases h with
  | array hitems => exact hitems

end Properties

/-- Every number in it has a numeral. -/
inductive Plain (numeral : ν → Bool) : Json σ ν → Prop where
  | null : Plain numeral .null
  | bool (b : Bool) : Plain numeral (.bool b)
  | number {x : ν} (h : numeral x = true) : Plain numeral (.number x)
  | string (s : σ) : Plain numeral (.string s)
  | array {items : List (Json σ ν)} (h : ∀ v ∈ items, Plain numeral v) :
      Plain numeral (.array items)
  | object {properties : List (σ × Json σ ν)} (h : ∀ p ∈ properties, Plain numeral p.2) :
      Plain numeral (.object properties)

/-! ### Writing -/

section Written

variable (numeral : ν → Bool)

mutual

/-- What is written: `null` in place of a number without a numeral. -/
def written : Json σ ν → Json σ ν
  | .number x => if numeral x then .number x else .null
  | .array items => .array (writtenItems items)
  | .object properties => .object (writtenProperties properties)
  | .null => .null
  | .bool b => .bool b
  | .string s => .string s

def writtenItems : List (Json σ ν) → List (Json σ ν)
  | [] => []
  | v :: rest => written v :: writtenItems rest

def writtenProperties : List (σ × Json σ ν) → List (σ × Json σ ν)
  | [] => []
  | (name, v) :: rest => (name, written v) :: writtenProperties rest

end

variable {numeral}

theorem written_array (items : List (Json σ ν)) :
    (Json.array items).written numeral = .array (items.map (written numeral)) := by
  have hitems : writtenItems numeral items = items.map (written numeral) := by
    induction items with
    | nil => rfl
    | cons v rest ih => rw [writtenItems, ih, List.map_cons]
  rw [written, hitems]

theorem written_object (properties : List (σ × Json σ ν)) :
    (Json.object properties).written numeral =
      .object (properties.map fun p => (p.1, p.2.written numeral)) := by
  have hproperties : writtenProperties numeral properties =
      properties.map fun p => (p.1, p.2.written numeral) := by
    induction properties with
    | nil => rfl
    | cons p rest ih => rw [writtenProperties, ih, List.map_cons]
  rw [written, hproperties]

theorem map_eq_self_iff {α : Type} {f : α → α} {l : List α} :
    l.map f = l ↔ ∀ a ∈ l, f a = a := by
  have hmap : l.map f = l.map id ↔ ∀ a ∈ l, f a = id a := List.map_inj_left
  rwa [List.map_id] at hmap

/-- A value is written as it is exactly if its numbers have numerals. -/
theorem written_eq_self_iff (v : Json σ ν) : v.written numeral = v ↔ v.Plain numeral := by
  induction v using induct with
  | null => exact ⟨fun _ => .null, fun _ => rfl⟩
  | bool b => exact ⟨fun _ => .bool b, fun _ => rfl⟩
  | string s => exact ⟨fun _ => .string s, fun _ => rfl⟩
  | number x =>
      rw [written]
      constructor
      · intro h
        split at h
        · exact .number ‹_›
        · cases h
      · intro h
        cases h with
        | number hx => exact if_pos hx
  | array items ih =>
      rw [written_array, Json.array.injEq, map_eq_self_iff]
      constructor
      · intro h
        exact .array fun v hv => (ih v hv).mp (h v hv)
      · intro h v hv
        cases h with
        | array hitems => exact (ih v hv).mpr (hitems v hv)
  | object properties ih =>
      rw [written_object, Json.object.injEq, map_eq_self_iff]
      constructor
      · intro h
        exact .object fun p hp => (ih p hp).mp (congrArg Prod.snd (h p hp))
      · intro h p hp
        cases h with
        | object hproperties =>
            exact Prod.ext rfl ((ih p hp).mpr (hproperties p hp))

theorem isRecord_written (v : Json σ ν) : (v.written numeral).isRecord = v.isRecord := by
  cases v with
  | number x =>
      rw [written]
      split <;> rfl
  | array items => rw [written_array]; rfl
  | object properties => rw [written_object]; rfl
  | null | bool _ | string _ => rfl

theorem WellFormed.written [LT σ] {v : Json σ ν} (h : v.WellFormed) :
    (v.written numeral).WellFormed := by
  induction h with
  | null => exact .null
  | bool b => exact .bool b
  | string s => exact .string s
  | number x =>
      rw [Json.written]
      split
      · exact .number x
      · exact .null
  | array h ih =>
      rw [written_array]
      exact .array (List.forall_mem_map.mpr ih)
  | object hnames h ih =>
      rw [written_object]
      refine .object ?_ (List.forall_mem_map.mpr ih)
      rwa [List.map_map]

end Written

/-! ### There are countably many -/

section Countable

variable (strings : σ → ℕ) (numbers : ν → ℕ)

mutual

/-- A number for each value. -/
def code : Json σ ν → ℕ
  | .null => Nat.pair 0 0
  | .bool b => Nat.pair 1 b.toNat
  | .number x => Nat.pair 2 (numbers x)
  | .string s => Nat.pair 3 (strings s)
  | .array items => Nat.pair 4 (codeItems items)
  | .object properties => Nat.pair 5 (codeProperties properties)

def codeItems : List (Json σ ν) → ℕ
  | [] => 0
  | v :: rest => Nat.pair (code v) (codeItems rest) + 1

def codeProperties : List (σ × Json σ ν) → ℕ
  | [] => 0
  | (name, v) :: rest => Nat.pair (strings name) (Nat.pair (code v) (codeProperties rest)) + 1

end

variable {strings numbers}

theorem codeItems_inj {items : List (Json σ ν)}
    (h : ∀ v ∈ items, ∀ w, code strings numbers v = code strings numbers w → v = w)
    {others : List (Json σ ν)}
    (heq : codeItems strings numbers items = codeItems strings numbers others) :
    items = others := by
  induction items generalizing others with
  | nil =>
      cases others with
      | nil => rfl
      | cons w rest => simp [codeItems] at heq
  | cons v items ih =>
      cases others with
      | nil => simp [codeItems] at heq
      | cons w rest =>
          obtain ⟨hhead, htail⟩ := List.forall_mem_cons.mp h
          obtain ⟨hv, hrest⟩ := Nat.pair_eq_pair.mp (Nat.succ.inj heq)
          rw [hhead w hv, ih htail hrest]

theorem codeProperties_inj (hstrings : Function.Injective strings)
    {properties : List (σ × Json σ ν)}
    (h : ∀ p ∈ properties, ∀ w, code strings numbers p.2 = code strings numbers w → p.2 = w)
    {others : List (σ × Json σ ν)}
    (heq : codeProperties strings numbers properties = codeProperties strings numbers others) :
    properties = others := by
  induction properties generalizing others with
  | nil =>
      cases others with
      | nil => rfl
      | cons w rest => simp [codeProperties] at heq
  | cons p properties ih =>
      cases others with
      | nil => simp [codeProperties] at heq
      | cons w rest =>
          obtain ⟨hhead, htail⟩ := List.forall_mem_cons.mp h
          obtain ⟨hname, hvalue⟩ := Nat.pair_eq_pair.mp (Nat.succ.inj heq)
          obtain ⟨hv, hrest⟩ := Nat.pair_eq_pair.mp hvalue
          rw [Prod.ext (hstrings hname) (hhead w.2 hv), ih htail hrest]

theorem code_injective (hstrings : Function.Injective strings)
    (hnumbers : Function.Injective numbers) :
    Function.Injective (code strings numbers : Json σ ν → ℕ) := by
  intro v
  induction v using induct with
  | null =>
      intro w h
      cases w with
      | null => rfl
      | _ => simp [code] at h
  | bool b =>
      intro w h
      cases w with
      | bool b' => cases b <;> cases b' <;> simp [code] at h ⊢
      | _ => simp [code] at h
  | number x =>
      intro w h
      cases w with
      | number y => rw [hnumbers (Nat.pair_eq_pair.mp h).2]
      | _ => simp [code] at h
  | string s =>
      intro w h
      cases w with
      | string t => rw [hstrings (Nat.pair_eq_pair.mp h).2]
      | _ => simp [code] at h
  | array items ih =>
      intro w h
      cases w with
      | array others => rw [codeItems_inj ih (Nat.pair_eq_pair.mp h).2]
      | _ => simp [code] at h
  | object properties ih =>
      intro w h
      cases w with
      | object others => rw [codeProperties_inj hstrings ih (Nat.pair_eq_pair.mp h).2]
      | _ => simp [code] at h

/-- Over countably many strings and numbers there are countably many values. -/
instance countable [Countable σ] [Countable ν] : Countable (Json σ ν) :=
  let ⟨_, hstrings⟩ := exists_injective_nat σ
  let ⟨_, hnumbers⟩ := exists_injective_nat ν
  (code_injective hstrings hnumbers).countable

end Countable

end Json

end RerankerService
