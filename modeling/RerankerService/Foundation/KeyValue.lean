import Mathlib.Data.List.AList

/-!
# Servers of keys and values

A server that clients read from, write to and iterate over, while entries expire or are evicted and
other clients work on keys of their own. What a client can rely on is a structure of laws; an
iteration is what one client has been told since it began, with what could be read all the time.
-/

namespace RerankerService.KeyValue

/-- A server with states `σ` as its clients see it. An event `ε` is whatever happens without the
commands of this client: time passes, an entry expires or is evicted, another client sends a command.
`scan` answers some keys and the cursor to go on with, if there is more. -/
structure Server (κ ν σ ε γ : Type) where
  get : σ → κ → Option ν
  set : σ → κ → ν → Nat → σ
  delete : σ → κ → Nat × σ
  scan : σ → Option γ → List κ × Option γ
  occur : σ → ε → Option σ

/-- Where an iteration is: it goes on with a cursor, or it has come to its end. -/
inductive Position (γ : Type) where
  | next (cursor : Option γ)
  | finished

def Position.after {γ : Type} : Option γ → Position γ
  | some cursor => .next (some cursor)
  | none => .finished

variable {κ ν σ ε γ : Type}

namespace Server

variable (server : Server κ ν σ ε γ)

def Readable (s : σ) (key : κ) : Prop :=
  (server.get s key).isSome = true

/-- One command or event. -/
inductive Changes (s : σ) : σ → Prop where
  | set (key : κ) (value : ν) (ttl : Nat) : Changes s (server.set s key value ttl)
  | delete (key : κ) : Changes s (server.delete s key).2
  | occurred {event : ε} {s' : σ} (h : server.occur s event = some s') : Changes s s'

/-- An iteration up to now: the keys it was answered, and those that could be read all the time. -/
inductive Iteration : List κ → (κ → Prop) → Position γ → σ → Prop where
  | start (s : σ) : Iteration [] (server.Readable s) (.next none) s
  | scanned {answered : List κ} {kept : κ → Prop} {cursor : Option γ} {s : σ}
      (h : Iteration answered kept (.next cursor) s) :
      Iteration (answered ++ (server.scan s cursor).1) kept (.after (server.scan s cursor).2) s
  | changed {answered : List κ} {kept : κ → Prop} {progress : Position γ} {s s' : σ}
      (h : Iteration answered kept progress s) (hchange : server.Changes s s') :
      Iteration answered (fun key => kept key ∧ server.Readable s' key) progress s'

/-- **The laws**, for the keys that this client calls its own. A `set` may evict other entries, a
`delete` removes its key only and answers whether it was there, events take own entries away and never
bring them, and a whole iteration answers own keys, with all that could be read from its beginning
to its end. -/
structure Lawful [DecidableEq κ] (own : κ → Prop) : Prop where
  set : ∀ s key value ttl other read, server.get (server.set s key value ttl) other = some read →
    (other = key ∧ read = value) ∨ server.get s other = some read
  delete : ∀ s key other,
    server.get (server.delete s key).2 other = if other = key then none else server.get s other
  deleted : ∀ s key, (server.delete s key).1 = if (server.get s key).isSome then 1 else 0
  occur : ∀ s event s', server.occur s event = some s' → ∀ key read, own key →
    server.get s' key = some read → server.get s key = some read
  scan : ∀ s cursor, ∀ key ∈ (server.scan s cursor).1, own key
  complete : ∀ answered kept s, server.Iteration answered kept .finished s →
    ∀ key, own key → kept key → key ∈ answered

variable {server} {s s' : σ} {answered : List κ} {kept own : κ → Prop} {progress : Position γ}

/-- What could be read all the time can be read now. -/
theorem Iteration.readable (h : server.Iteration answered kept progress s) {key : κ}
    (hkey : kept key) : server.Readable s key := by
  induction h with
  | start s => exact hkey
  | scanned h ih => exact ih hkey
  | changed h hchange ih => exact hkey.2

variable [DecidableEq κ]

/-- Only a `set` makes a key readable. -/
theorem Lawful.readable_set (hserver : server.Lawful own) {key other : κ} {value : ν} {ttl : Nat}
    (h : server.Readable (server.set s key value ttl) other) :
    other = key ∨ server.Readable s other := by
  obtain ⟨read, hread⟩ := Option.isSome_iff_exists.mp h
  rcases hserver.set s key value ttl other read hread with ⟨hsame, -⟩ | hbefore
  · exact .inl hsame
  · exact .inr (Option.isSome_iff_exists.mpr ⟨read, hbefore⟩)

theorem Lawful.readable_delete (hserver : server.Lawful own) {key other : κ}
    (h : server.Readable (server.delete s key).2 other) : other ≠ key ∧ server.Readable s other := by
  unfold Readable at h ⊢
  rw [hserver.delete] at h
  split at h
  · cases h
  · exact ⟨‹_›, h⟩

theorem Lawful.readable_occur (hserver : server.Lawful own) {event : ε} {key : κ}
    (hevent : server.occur s event = some s') (hkey : own key) (h : server.Readable s' key) :
    server.Readable s key := by
  obtain ⟨read, hread⟩ := Option.isSome_iff_exists.mp h
  exact Option.isSome_iff_exists.mpr ⟨read, hserver.occur s event s' hevent key read hkey hread⟩

end Server

/-! ### A server in one piece -/

variable [DecidableEq κ]

/-- It answers all keys of one kind at once, and an event takes an entry away. -/
def listing (own : κ → Bool) : Server κ ν (AList fun _ : κ => ν) κ Unit where
  get store key := store.lookup key
  set store key value _ := store.insert key value
  delete store key := (if (store.lookup key).isSome then 1 else 0, store.erase key)
  scan store _ := (store.keys.filter own, none)
  occur store key := some (store.erase key)

variable {own : κ → Bool} {answered : List κ} {kept : κ → Prop} {progress : Position Unit}
  {s : AList fun _ : κ => ν}

theorem listing_complete (h : (listing own).Iteration answered kept progress s)
    (hfinished : progress = .finished) {key : κ} (hkey : own key = true) (hkept : kept key) :
    key ∈ answered := by
  induction h with
  | start s => cases hfinished
  | @scanned answered kept cursor s h ih =>
      refine List.mem_append_right _ (List.mem_filter.mpr ⟨?_, hkey⟩)
      exact AList.mem_keys.mp (AList.lookup_isSome.mp (h.readable hkept))
  | changed h hchange ih => exact ih hfinished hkept.1

theorem listing_lawful (own : κ → Bool) :
    (listing own : Server κ ν _ _ _).Lawful fun key => own key = true where
  set store key value _ other read h := by
    by_cases hsame : other = key
    · subst hsame
      exact .inl ⟨rfl, Option.some.inj (h.symm.trans (AList.lookup_insert store))⟩
    · exact .inr ((AList.lookup_insert_ne hsame).symm.trans h)
  delete store key other := by
    by_cases hsame : other = key
    · rw [if_pos hsame, hsame]
      exact AList.lookup_erase key store
    · rw [if_neg hsame]
      exact AList.lookup_erase_ne hsame
  deleted _ _ := rfl
  occur store other store' hevent key read _ h := by
    obtain rfl : store.erase other = store' := Option.some.inj hevent
    change (store.erase other).lookup key = some read at h
    by_cases hsame : key = other
    · rw [hsame, AList.lookup_erase] at h
      cases h
    · exact (AList.lookup_erase_ne hsame).symm.trans h
  scan store _ key hkey := (List.mem_filter.mp hkey).2
  complete _ _ _ h _ := listing_complete h rfl

end RerankerService.KeyValue
