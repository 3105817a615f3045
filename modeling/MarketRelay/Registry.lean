import Mathlib.Data.Finmap
import MarketRelay.Refresh

/-!
# The Adapter Registry

Which adapter serves a source, one registry for each capability. A view presents the six of them as
one mapping: an object that is registered through it goes to the registries of the capabilities
that it has, and leaves the others as they are. A source that is registered twice can so be served
by two objects.

## Main results

* `Registries.lookup_run`: a registry after a sequence of registrations, as the last write to it.
* `getPort_run_eq_ok_iff`: which adapter a port is answered with, after any sequence.
* `getCalendarForListing_eq`: the calendar of a listing is that of its first route.
-/

namespace MarketRelay

/-- The methods that tell which capabilities an object has. -/
inductive AdapterMethod where
  | search
  | getMetadata
  | fetchRange
  | fetchLatest
  | sessionsInRange
  | check
  | consume
deriving DecidableEq, Repr

/-- An object that can be registered. -/
class Adapter (A : Type) where
  hasattr : A → AdapterMethod → Bool

/-- A registry for each of them. -/
inductive Capability where
  | discovery
  | metadata
  | historical
  | latest
  | calendar
  | quota
deriving DecidableEq, Repr

namespace Capability

def all : List Capability := [discovery, metadata, historical, latest, calendar, quota]

theorem mem_all (c : Capability) : c ∈ all := by
  cases c <;> decide

/-- The name of the capability in the text of an error. -/
def text : Capability → String
  | discovery => "discovery"
  | metadata => "descriptive metadata"
  | historical => "historical EOD"
  | latest => "latest price"
  | calendar => "calendar"
  | quota => "quota"

/-- The object has the methods of the capability. -/
def offeredBy {A : Type} [Adapter A] : Capability → A → Bool
  | discovery, value => Adapter.hasattr value .search
  | metadata, value => Adapter.hasattr value .getMetadata
  | historical, value => Adapter.hasattr value .fetchRange
  | latest, value => Adapter.hasattr value .fetchLatest
  | calendar, value => Adapter.hasattr value .sessionsInRange
  | quota, value => Adapter.hasattr value .check && Adapter.hasattr value .consume

end Capability

/-- The registries, each from the names of the sources to their adapters. -/
abbrev Registries (A : Type) := Capability → Finmap fun _ : String => A

variable {A : Type}

/-! ### Ports -/

/-- `_get` -/
def getPort (c : Capability) (source : String) (r : Registries A) : Except PyError A :=
  match (r c).lookup source with
  | some adapter => .ok adapter
  | none => .error (.unknownSource source c.text)

def getDiscoveryPort (source : String) (r : Registries A) : Except PyError A :=
  getPort .discovery source r

def getMetadataPort (source : String) (r : Registries A) : Except PyError A :=
  getPort .metadata source r

def getHistoricalPricePort (source : String) (r : Registries A) : Except PyError A :=
  getPort .historical source r

def getLatestPricePort (source : String) (r : Registries A) : Except PyError A :=
  getPort .latest source r

def getQuotaPort (source : String) (r : Registries A) : Except PyError A :=
  getPort .quota source r

def getCalendarPort (source : String) (r : Registries A) : Except PyError A :=
  getPort .calendar source r

theorem getPort_eq_ok_iff {c : Capability} {source : String} {r : Registries A} {adapter : A} :
    getPort c source r = .ok adapter ↔ (r c).lookup source = some adapter := by
  rw [getPort]
  cases (r c).lookup source <;> simp

/-- The sources of the calendars of a listing: by its MIC, by its venue, and the fallback. -/
abbrev CalendarRouting := Finmap fun _ : String => String

/-- The keys of the routes of a listing, the first one first; `upper` is `str.upper`. -/
def routeKeys (upper : String → String) (mic : Option String) (venue : String) : List String :=
  [upper (mic.getD ""), upper venue, "*"].filter fun key => decide (key ≠ "")

/-- Resolve a calendar from listing identity. -/
def getCalendarForListing (upper : String → String) (routes : CalendarRouting) (r : Registries A)
    (mic : Option String) (venue : String) : Except PyError A :=
  match (routeKeys upper mic venue).findSome? fun key => routes.lookup key with
  | some source => getCalendarPort source r
  | none => .error (.calendarUnavailable (mic.getD "") venue)

/-- **With a fallback every listing has a route**: the source is that of the first of its keys that
is routed. -/
theorem getCalendarForListing_eq {upper : String → String} {routes : CalendarRouting}
    {fallback : String} (h : routes.lookup "*" = some fallback) (r : Registries A)
    (mic : Option String) (venue : String) :
    getCalendarForListing upper routes r mic venue =
      getCalendarPort (((routeKeys upper mic venue).findSome? fun key => routes.lookup key).getD
        fallback) r := by
  rw [getCalendarForListing]
  cases hfound : (routeKeys upper mic venue).findSome? fun key => routes.lookup key with
  | some source => rfl
  | none =>
      have hfallback := List.findSome?_eq_none_iff.mp hfound "*" (by simp [routeKeys])
      exact absurd (h.symm.trans hfallback) (by simp)

/-! ### The view of the registries -/

namespace Registries

/-- `__setitem__`: register only methods an object provides. -/
def setItem [Adapter A] (key : String) (value : A) (r : Registries A) : Registries A :=
  fun c => if c.offeredBy value then (r c).insert key value else r c

/-- `__delitem__`; `none` is `KeyError`. -/
def delItem (key : String) (r : Registries A) : Option (Registries A) :=
  if Capability.all.any fun c => decide (key ∈ r c) then some fun c => (r c).erase key else none

end Registries

/-! ### Sequences of operations -/

/-- An operation of a local extension on the view. -/
inductive Registration (A : Type) where
  | set (key : String) (value : A)
  | del (key : String)

section

variable [Adapter A]

/-- Carry out an operation; the one that raises `KeyError` changes nothing. -/
def Registration.apply : Registration A → Registries A → Registries A
  | set key value, r => r.setItem key value
  | del key, r => (r.delItem key).getD r

/-- The registries after a sequence of operations. -/
def Registries.run (r : Registries A) (ops : List (Registration A)) : Registries A :=
  ops.foldl (fun r op => op.apply r) r

/-- What the operation writes for a capability of a source: an adapter, or that there is none. -/
def Registration.writes? (c : Capability) (source : String) : Registration A → Option (Option A)
  | set key value => if key = source ∧ c.offeredBy value = true then some (some value) else none
  | del key => if key = source then some none else none

variable {c : Capability} {source : String} {r : Registries A}

/-- One operation, for one capability of one source. -/
theorem Registration.lookup_apply (op : Registration A) :
    (op.apply r c).lookup source = (op.writes? c source).getD ((r c).lookup source) := by
  cases op with
  | set key value =>
      simp only [apply, Registries.setItem, writes?]
      by_cases hoffered : c.offeredBy value = true
      · by_cases hkey : key = source
        · subst hkey
          simp [hoffered]
        · rw [if_pos hoffered, Finmap.lookup_insert_of_ne _ (Ne.symm hkey),
            if_neg fun h => hkey h.1]
          rfl
      · rw [if_neg hoffered, if_neg fun h => hoffered h.2]
        rfl
  | del key =>
      simp only [apply, Registries.delItem, writes?]
      split
      · by_cases hkey : key = source
        · subst hkey
          simp
        · rw [if_neg hkey]
          exact Finmap.lookup_erase_ne (Ne.symm hkey)
      · rename_i habsent
        by_cases hkey : key = source
        · subst hkey
          have hmem : key ∉ r c := fun hmem =>
            habsent (List.any_eq_true.mpr ⟨c, c.mem_all, decide_eq_true hmem⟩)
          rw [if_pos rfl]
          exact Finmap.lookup_eq_none.mpr hmem
        · rw [if_neg hkey]
          rfl

/-- The last of the operations that writes for the capability of the source, as what it writes. -/
def lastWrite? (c : Capability) (source : String) (ops : List (Registration A)) :
    Option (Option A) :=
  ops.reverse.findSome? fun op => op.writes? c source

/-- **A registry after a sequence of operations**: what the last one that writes to it has left. -/
theorem Registries.lookup_run (ops : List (Registration A)) :
    (r.run ops c).lookup source = (lastWrite? c source ops).getD ((r c).lookup source) := by
  induction ops generalizing r with
  | nil => rfl
  | cons op rest ih =>
      rw [show r.run (op :: rest) = (op.apply r).run rest from rfl, ih, Registration.lookup_apply,
        lastWrite?, lastWrite?, List.reverse_cons, List.findSome?_append]
      cases rest.reverse.findSome? fun op => op.writes? c source with
      | some written => rfl
      | none => cases h : op.writes? c source <;> simp [h]

/-- No operation of the list concerns the capability of the source. -/
def Untouched (c : Capability) (source : String) (ops : List (Registration A)) : Prop :=
  ∀ op ∈ ops, op.writes? c source = none

theorem lastWrite?_eq_none_iff {ops : List (Registration A)} :
    lastWrite? c source ops = none ↔ Untouched c source ops := by
  rw [lastWrite?, List.findSome?_eq_none_iff]
  exact forall_congr' fun op => by rw [List.mem_reverse]

theorem Registration.writes?_eq_adapter_iff {op : Registration A} {adapter : A} :
    op.writes? c source = some (some adapter) ↔
      op = .set source adapter ∧ c.offeredBy adapter = true := by
  cases op with
  | set key value =>
      rw [writes?]
      constructor
      · intro h
        split at h
        · rename_i hcond
          obtain rfl := Option.some.inj (Option.some.inj h)
          exact ⟨by rw [hcond.1], hcond.2⟩
        · exact absurd h (by simp)
      · rintro ⟨heq, hoffered⟩
        injection heq with hkey hvalue
        subst hkey hvalue
        rw [if_pos ⟨rfl, hoffered⟩]
  | del key =>
      rw [writes?]
      split <;> simp

/-- The last operation that writes is a registration of the adapter. -/
theorem lastWrite?_eq_adapter_iff {ops : List (Registration A)} {adapter : A} :
    lastWrite? c source ops = some (some adapter) ↔
      ∃ before after, ops = before ++ .set source adapter :: after ∧
        c.offeredBy adapter = true ∧ Untouched c source after := by
  rw [lastWrite?, List.findSome?_eq_some_iff]
  constructor
  · rintro ⟨after, op, before, hops, hwrites, hafter⟩
    obtain ⟨rfl, hoffered⟩ := Registration.writes?_eq_adapter_iff.mp hwrites
    refine ⟨before.reverse, after.reverse, ?_, hoffered, fun op hop => ?_⟩
    · rw [← List.reverse_reverse ops, hops]
      simp
    · exact hafter op (List.mem_reverse.mp hop)
  · rintro ⟨before, after, rfl, hoffered, hafter⟩
    refine ⟨after.reverse, .set source adapter, before.reverse, by simp,
      Registration.writes?_eq_adapter_iff.mpr ⟨rfl, hoffered⟩, fun op hop => ?_⟩
    exact hafter op (List.mem_reverse.mp hop)

/-- **Which adapter serves a source**, after any sequence of registrations: the last one that was
registered under it with the capability, if the source has not been deleted since. An object that
was registered later without the capability leaves it in its place. -/
theorem getPort_run_eq_ok_iff (c : Capability) (source : String) (r : Registries A)
    (ops : List (Registration A)) (adapter : A) :
    getPort c source (r.run ops) = .ok adapter ↔
      (∃ before after, ops = before ++ .set source adapter :: after ∧
        c.offeredBy adapter = true ∧ Untouched c source after) ∨
      Untouched c source ops ∧ getPort c source r = .ok adapter := by
  rw [getPort_eq_ok_iff, getPort_eq_ok_iff, Registries.lookup_run, ← lastWrite?_eq_adapter_iff,
    ← lastWrite?_eq_none_iff]
  cases lastWrite? c source ops <;> simp

end

end MarketRelay
