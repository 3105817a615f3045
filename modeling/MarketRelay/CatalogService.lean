import MarketRelay.Catalog
import MarketRelay.Lib.Table
import MarketRelay.Models

/-!
# The Catalog Service

Instruments, their listings, and the identifiers by which providers know these, with the constraints
of their tables. The tables carry what the constraints promise: a listing has an instrument, an
identifier has a listing and a period that does not end before it starts (`CatalogTables`).

A search joins every listing with its instrument. It is a selection of the listings, since a listing
has exactly one (`findListings_eq`), and a registration only ever adds rows behind those that exist
(`CatalogTables.Extends`). So what a search has found it finds again.

A session writes in one transaction after another. The service flushes without a savepoint, so a
call that fails takes back all that its session has written since the last commit
(`CatalogSession`). The session then refuses calls until its client has rolled back; a refused call
writes nothing, and is not among the events here.

The upper case of a currency is a parameter: nothing here depends on how a text is folded, only on
the two sides of a comparison being folded alike.

## Main results

* `findListings_eq`: what a search finds.
* `resolution_never_relinks`: a listing that has been resolved is resolved again, or reported as
  ambiguous.
* `registered_listing_resolves`: ISIN, venue, ticker and currency lead back to the listing that was
  registered with them, for good.
-/

open Relational Gregorian

namespace MarketRelay

/-! ### Tables -/

/-- The economic identity, independent of where it is listed. -/
structure Instrument where
  id : ℕ
  assetClass : AssetClass
  name : String
  isin : Option String
  figi : Option String
deriving DecidableEq, Repr

/-- `uq_instruments_isin`; absent values never clash. -/
instance : Schema Instrument ℕ where
  pk := Instrument.id
  Clash a b := a.id = b.id ∨ (a.isin ≠ none ∧ a.isin = b.isin)
  clash_of_pk := Or.inl
  clash_symm := by
    rintro a b (hid | ⟨hsome, hisin⟩)
    · exact Or.inl hid.symm
    · exact Or.inr ⟨hisin ▸ hsome, hisin.symm⟩

/-- A listing of an instrument: venue, ticker and currency. -/
structure InstrumentListing where
  id : ℕ
  instrumentId : ℕ
  mic : Option String
  venue : String
  ticker : String
  currency : String
deriving DecidableEq, Repr

/-- The columns of `uq_listings_venue_ticker_ccy`. -/
def InstrumentListing.venueKey (l : InstrumentListing) : ℕ × String × String × String :=
  (l.instrumentId, l.venue, l.ticker, l.currency)

instance : Schema InstrumentListing ℕ where
  pk := InstrumentListing.id
  Clash a b := a.id = b.id ∨ a.venueKey = b.venueKey
  clash_of_pk := Or.inl
  clash_symm := Or.imp Eq.symm Eq.symm

/-- `uq_external_identities_source_ext_from`; nothing reads the primary key. -/
instance : Schema ExternalIdentity (String × String × Date) where
  pk e := (e.source, e.externalId, e.validFrom)
  Clash a b := (a.source, a.externalId, a.validFrom) = (b.source, b.externalId, b.validFrom)
  clash_of_pk := id
  clash_symm := Eq.symm

/-- The tables of the catalog, with their foreign keys and the check on the period of an
identifier. -/
structure CatalogTables where
  instruments : Table Instrument
  listings : Table InstrumentListing
  identities : Table ExternalIdentity
  listed : ∀ l ∈ listings.rows, ∃ i, instruments.get? l.instrumentId = some i
  identified : ∀ e ∈ identities.rows, ∃ l, listings.get? e.listingId = some l
  ordered : ∀ e ∈ identities.rows, ∀ validTo, e.validTo = some validTo → e.validFrom ≤ validTo

/-- Why a flush fails. -/
inductive IntegrityError where
  | unique
  | foreignKey
  | check
deriving DecidableEq, Repr

namespace CatalogTables

/-- The tables without rows. -/
def empty : CatalogTables where
  instruments := .empty
  listings := .empty
  identities := .empty
  listed := by simp [Table.empty]
  identified := by simp [Table.empty]
  ordered := by simp [Table.empty]

/-! ### Registration -/

/-- An insert keeps the rows that were there. -/
theorem exists_get?_insert? {ρ ι : Type} [Schema ρ ι] {t t' : Table ρ} {r : ρ} {k : ι}
    (h : t.insert? r = some t') (hk : ∃ a, t.get? k = some a) : ∃ a, t'.get? k = some a := by
  rw [Table.get?_insert? h]
  split
  · exact ⟨r, rfl⟩
  · exact hk

/-- `CatalogService.register_instrument`; `uuid` is what the client proposes as the key. -/
def registerInstrument (db : CatalogTables) (assetClass : AssetClass) (name : String)
    (isin figi : Option String) (uuid : ℕ) : Except IntegrityError (Instrument × CatalogTables) :=
  let instrument : Instrument := ⟨db.instruments.draw uuid, assetClass, name, isin, figi⟩
  match h : db.instruments.insert? instrument with
  | none => .error .unique
  | some instruments =>
    .ok (instrument, { db with
      instruments
      listed := fun l hl => exists_get?_insert? h (db.listed l hl) })

/-- `CatalogService.add_listing`. -/
def addListing (upperCase : String → String) (db : CatalogTables) (instrument : Instrument)
    (venue ticker currency : String) (mic : Option String) (uuid : ℕ) :
    Except IntegrityError (InstrumentListing × CatalogTables) :=
  let listing : InstrumentListing :=
    ⟨db.listings.draw uuid, instrument.id, mic, venue, ticker, upperCase currency⟩
  if hparent : (db.instruments.get? instrument.id).isSome then
    match h : db.listings.insert? listing with
    | none => .error .unique
    | some listings =>
      .ok (listing, { db with
        listings
        listed := by
          intro l hl
          rw [(Table.insert?_eq_some_iff.mp h).2, List.mem_append, List.mem_singleton] at hl
          rcases hl with hl | rfl
          · exact db.listed l hl
          · exact Option.isSome_iff_exists.mp hparent
        identified := fun e he => exists_get?_insert? h (db.identified e he) })
  else .error .foreignKey

/-- `CatalogService.link_external_identity`. -/
def linkExternalIdentity (db : CatalogTables) (listing : InstrumentListing)
    (source externalId : String) (validFrom : Date) (validTo : Option Date) :
    Except IntegrityError (ExternalIdentity × CatalogTables) :=
  let identity : ExternalIdentity := ⟨listing.id, source, externalId, validFrom, validTo⟩
  if hperiod : ∀ last ∈ validTo, validFrom ≤ last then
    if hparent : (db.listings.get? listing.id).isSome then
      match h : db.identities.insert? identity with
      | none => .error .unique
      | some identities =>
        .ok (identity, { db with
          identities
          identified := by
            intro e he
            rw [(Table.insert?_eq_some_iff.mp h).2, List.mem_append, List.mem_singleton] at he
            rcases he with he | rfl
            · exact db.identified e he
            · exact Option.isSome_iff_exists.mp hparent
          ordered := by
            intro e he last hlast
            rw [(Table.insert?_eq_some_iff.mp h).2, List.mem_append, List.mem_singleton] at he
            rcases he with he | rfl
            · exact db.ordered e he last hlast
            · exact hperiod last hlast })
    else .error .foreignKey
  else .error .check

end CatalogTables

/-! ### Search -/

/-- Optional criteria to narrow a search. -/
structure ListingSearchCriteria where
  isin : Option String
  figi : Option String
  ticker : Option String
  mic : Option String
  venue : Option String
  currency : Option String
  assetClass : Option AssetClass
deriving DecidableEq, Repr

/-- The `WHERE` clauses, on a listing and its instrument. -/
def ListingSearchCriteria.accepts (upperCase : String → String) (c : ListingSearchCriteria)
    (l : InstrumentListing) (i : Instrument) : Bool :=
  c.isin.all (fun isin => decide (i.isin = some isin)) &&
    c.figi.all (fun figi => decide (i.figi = some figi)) &&
    c.assetClass.all (fun assetClass => decide (i.assetClass = assetClass)) &&
    c.ticker.all (fun ticker => decide (l.ticker = ticker)) &&
    c.mic.all (fun mic => decide (l.mic = some mic)) &&
    c.venue.all (fun venue => decide (l.venue = venue)) &&
    c.currency.all fun currency => decide (l.currency = upperCase currency)

/-- The search is ambiguous: not exactly one listing matches. -/
structure AmbiguousMatchError where
  candidates : List InstrumentListing
deriving DecidableEq, Repr

/-- The text of the error. -/
def AmbiguousMatchError.message (e : AmbiguousMatchError) : String :=
  "The search is ambiguous: " ++ toString e.candidates.length ++
    " listings match the given criteria."

namespace CatalogTables

/-- `SELECT ... FROM listings JOIN instruments`. -/
def joined (db : CatalogTables) : List (InstrumentListing × Instrument) :=
  db.listings.rows.flatMap fun l =>
    (db.instruments.rows.filter fun i => decide (i.id = l.instrumentId)).map fun i => (l, i)

/-- `CatalogService.find_listings`. -/
def findListings (upperCase : String → String) (db : CatalogTables) (c : ListingSearchCriteria) :
    List InstrumentListing :=
  (db.joined.filter fun row => c.accepts upperCase row.1 row.2).map Prod.fst

/-- `CatalogService.resolve_single_listing`. -/
def resolveSingleListing (upperCase : String → String) (db : CatalogTables)
    (c : ListingSearchCriteria) : Except AmbiguousMatchError InstrumentListing :=
  match db.findListings upperCase c with
  | [listing] => .ok listing
  | candidates => .error ⟨candidates⟩

/-- A listing of the catalog that satisfies the criteria, together with its instrument. -/
def Matches (upperCase : String → String) (db : CatalogTables) (c : ListingSearchCriteria)
    (l : InstrumentListing) : Prop :=
  ∃ i, db.instruments.get? l.instrumentId = some i ∧ c.accepts upperCase l i = true

section Search

variable {upperCase : String → String} {db db' : CatalogTables} {c : ListingSearchCriteria}
  {l k : InstrumentListing}

private theorem map_fst_filter_joined {rows : List InstrumentListing}
    (h : ∀ l ∈ rows, ∃ i, db.instruments.get? l.instrumentId = some i) :
    ((rows.flatMap fun l => (db.instruments.rows.filter fun i => decide (i.id = l.instrumentId)).map
      fun i => (l, i)).filter fun row => c.accepts upperCase row.1 row.2).map Prod.fst =
    rows.filter fun l => (db.instruments.get? l.instrumentId).any (c.accepts upperCase l) := by
  induction rows with
  | nil => rfl
  | cons l rest ih =>
      obtain ⟨i, hi⟩ := h l List.mem_cons_self
      have hone : (db.instruments.rows.filter fun i => decide (i.id = l.instrumentId)) = [i] :=
        Table.filter_pk hi
      rw [List.flatMap_cons, hone, List.map_singleton, List.singleton_append, List.filter_cons,
        List.filter_cons, hi, Option.any_some]
      cases c.accepts upperCase l i with
      | false => exact ih fun l hl => h l (List.mem_cons_of_mem _ hl)
      | true => exact congrArg (l :: ·) (ih fun l hl => h l (List.mem_cons_of_mem _ hl))

/-- **A search selects listings**, each of them once, since it has exactly one instrument. -/
theorem findListings_eq : db.findListings upperCase c = db.listings.rows.filter fun l =>
    (db.instruments.get? l.instrumentId).any (c.accepts upperCase l) :=
  map_fst_filter_joined db.listed

theorem mem_findListings :
    l ∈ db.findListings upperCase c ↔ l ∈ db.listings.rows ∧ db.Matches upperCase c l := by
  rw [findListings_eq, List.mem_filter, Option.any_eq_true]
  rfl

theorem nodup_findListings : (db.findListings upperCase c).Nodup := by
  rw [findListings_eq]
  refine List.Nodup.filter _ (db.listings.unique.imp ?_)
  rintro a b hclash rfl
  exact hclash (Schema.clash_of_pk rfl)

theorem resolveSingleListing_eq_ok_iff :
    db.resolveSingleListing upperCase c = .ok l ↔ db.findListings upperCase c = [l] := by
  rw [resolveSingleListing]
  rcases db.findListings upperCase c with _ | ⟨a, _ | ⟨b, rest⟩⟩ <;> simp

theorem resolveSingleListing_eq_error_iff {e : AmbiguousMatchError} :
    db.resolveSingleListing upperCase c = .error e ↔
      e.candidates = db.findListings upperCase c ∧ e.candidates.length ≠ 1 := by
  rw [resolveSingleListing]
  obtain ⟨candidates⟩ := e
  rcases db.findListings upperCase c with _ | ⟨a, _ | ⟨b, rest⟩⟩
  · simp only [Except.error.injEq, AmbiguousMatchError.mk.injEq]
    exact ⟨fun h => ⟨h.symm, by simp [← h]⟩, fun h => h.1.symm⟩
  · simp only [reduceCtorEq, false_iff]
    rintro ⟨rfl, hlength⟩
    exact hlength rfl
  · simp only [Except.error.injEq, AmbiguousMatchError.mk.injEq]
    exact ⟨fun h => ⟨h.symm, by simp [← h]⟩, fun h => h.1.symm⟩

end Search

/-! ### Growth -/

/-- A catalog has the rows of another one, and maybe more behind them. -/
structure Extends (db db' : CatalogTables) : Prop where
  instruments : db.instruments.rows <+: db'.instruments.rows
  listings : db.listings.rows <+: db'.listings.rows
  identities : db.identities.rows <+: db'.identities.rows

namespace Extends

variable {upperCase : String → String} {db db' db'' : CatalogTables} {c : ListingSearchCriteria}

theorem refl (db : CatalogTables) : db.Extends db := ⟨List.prefix_rfl, List.prefix_rfl, List.prefix_rfl⟩

theorem trans (h : db.Extends db') (h' : db'.Extends db'') : db.Extends db'' :=
  ⟨h.instruments.trans h'.instruments, h.listings.trans h'.listings,
    h.identities.trans h'.identities⟩

/-- **What a search has found it finds again**, in the same place. -/
theorem findListings (h : db.Extends db') :
    db.findListings upperCase c <+: db'.findListings upperCase c := by
  rw [findListings_eq, findListings_eq]
  obtain ⟨more, hmore⟩ := h.listings
  rw [← hmore, List.filter_append]
  have hold : db.listings.rows.filter
        (fun l => (db'.instruments.get? l.instrumentId).any (c.accepts upperCase l)) =
      db.listings.rows.filter
        fun l => (db.instruments.get? l.instrumentId).any (c.accepts upperCase l) := by
    refine List.filter_congr fun l hl => ?_
    obtain ⟨i, hi⟩ := db.listed l hl
    rw [hi, Table.get?_of_subset h.instruments.subset hi]
  rw [hold]
  exact List.prefix_append _ _

end Extends

section Registered

variable {upperCase : String → String} {db db' : CatalogTables}

theorem registerInstrument_extends {assetClass : AssetClass} {name : String}
    {isin figi : Option String} {uuid : ℕ} {instrument : Instrument}
    (h : db.registerInstrument assetClass name isin figi uuid = .ok (instrument, db')) :
    db.Extends db' := by
  rw [registerInstrument] at h
  split at h
  · exact absurd h (by simp)
  · rename_i hinsert
    obtain ⟨-, rfl⟩ := Prod.mk.inj (Except.ok.inj h)
    obtain ⟨-, hrows⟩ := Table.insert?_eq_some_iff.mp hinsert
    exact ⟨hrows ▸ List.prefix_append _ _, List.prefix_rfl, List.prefix_rfl⟩

/-- What a new listing is, and where it is. -/
theorem addListing_eq_ok {instrument : Instrument} {venue ticker currency : String}
    {mic : Option String} {uuid : ℕ} {listing : InstrumentListing}
    (h : db.addListing upperCase instrument venue ticker currency mic uuid = .ok (listing, db')) :
    db.Extends db' ∧ listing ∈ db'.listings.rows ∧ listing =
      ⟨db.listings.draw uuid, instrument.id, mic, venue, ticker, upperCase currency⟩ := by
  rw [addListing] at h
  split at h
  · split at h
    · exact absurd h (by simp)
    · rename_i hinsert
      obtain ⟨rfl, rfl⟩ := Prod.mk.inj (Except.ok.inj h)
      obtain ⟨-, hrows⟩ := Table.insert?_eq_some_iff.mp hinsert
      refine ⟨⟨List.prefix_rfl, hrows ▸ List.prefix_append _ _, List.prefix_rfl⟩, ?_, rfl⟩
      rw [hrows]
      exact List.mem_append_right _ List.mem_cons_self
  · exact absurd h (by simp)

theorem linkExternalIdentity_extends {listing : InstrumentListing} {source externalId : String}
    {validFrom : Date} {validTo : Option Date} {identity : ExternalIdentity}
    (h : db.linkExternalIdentity listing source externalId validFrom validTo =
      .ok (identity, db')) : db.Extends db' := by
  rw [linkExternalIdentity] at h
  split at h
  · split at h
    · split at h
      · exact absurd h (by simp)
      · rename_i hinsert
        obtain ⟨-, rfl⟩ := Prod.mk.inj (Except.ok.inj h)
        obtain ⟨-, hrows⟩ := Table.insert?_eq_some_iff.mp hinsert
        exact ⟨List.prefix_rfl, List.prefix_rfl, hrows ▸ List.prefix_append _ _⟩
    · exact absurd h (by simp)
  · exact absurd h (by simp)

end Registered

end CatalogTables

/-! ### Runs -/

/-- A call of the service that writes. The objects that it is given are whatever the caller holds. -/
inductive CatalogCall where
  | registerInstrument (assetClass : AssetClass) (name : String) (isin figi : Option String)
      (uuid : ℕ)
  | addListing (instrument : Instrument) (venue ticker currency : String) (mic : Option String)
      (uuid : ℕ)
  | linkExternalIdentity (listing : InstrumentListing) (source externalId : String)
      (validFrom : Date) (validTo : Option Date)
deriving DecidableEq, Repr

/-- The tables after the flush of a call. -/
def CatalogCall.apply (upperCase : String → String) (db : CatalogTables) :
    CatalogCall → Except IntegrityError CatalogTables
  | .registerInstrument assetClass name isin figi uuid =>
    (db.registerInstrument assetClass name isin figi uuid).map Prod.snd
  | .addListing instrument venue ticker currency mic uuid =>
    (db.addListing upperCase instrument venue ticker currency mic uuid).map Prod.snd
  | .linkExternalIdentity listing source externalId validFrom validTo =>
    (db.linkExternalIdentity listing source externalId validFrom validTo).map Prod.snd

/-- **A call only adds.** -/
theorem CatalogCall.extends_apply {upperCase : String → String} {db db' : CatalogTables}
    {call : CatalogCall} (h : call.apply upperCase db = .ok db') : db.Extends db' := by
  have hcall : ∀ {α : Type} {x : Except IntegrityError (α × CatalogTables)},
      x.map Prod.snd = .ok db' → ∃ a, x = .ok (a, db') := by
    intro α x hx
    cases x with
    | error e => exact absurd hx (by simp [Except.map])
    | ok row =>
        obtain rfl := Except.ok.inj hx
        exact ⟨row.1, rfl⟩
  cases call with
  | registerInstrument =>
      obtain ⟨instrument, hok⟩ := hcall h
      exact CatalogTables.registerInstrument_extends hok
  | addListing =>
      obtain ⟨listing, hok⟩ := hcall h
      exact (CatalogTables.addListing_eq_ok hok).1
  | linkExternalIdentity =>
      obtain ⟨identity, hok⟩ := hcall h
      exact CatalogTables.linkExternalIdentity_extends hok

/-- The tables as they are committed, and as the transaction of a session has left them. -/
structure CatalogSession where
  committed : CatalogTables
  working : CatalogTables
  grown : committed.Extends working

/-- What the client of a session does. -/
inductive CatalogEvent where
  | call (call : CatalogCall)
  | commit
  | rollback
deriving DecidableEq, Repr

namespace CatalogSession

def begin (db : CatalogTables) : CatalogSession := ⟨db, db, .refl db⟩

/-- A call that fails rolls the whole transaction back. -/
def step (upperCase : String → String) (s : CatalogSession) : CatalogEvent → CatalogSession
  | .call call =>
    match h : call.apply upperCase s.working with
    | .ok db => ⟨s.committed, db, s.grown.trans (CatalogCall.extends_apply h)⟩
    | .error _ => begin s.committed
  | .commit => begin s.working
  | .rollback => begin s.committed

def run (upperCase : String → String) (s : CatalogSession) (events : List CatalogEvent) :
    CatalogSession :=
  events.foldl (step upperCase) s

variable {upperCase : String → String}

/-- **What is committed stays**, whatever happens next. -/
theorem extends_step (s : CatalogSession) (event : CatalogEvent) :
    s.committed.Extends (s.step upperCase event).committed := by
  cases event with
  | call call =>
      rw [step]
      split <;> exact .refl s.committed
  | commit => exact s.grown
  | rollback => exact .refl s.committed

theorem extends_run (s : CatalogSession) (events : List CatalogEvent) :
    s.committed.Extends (s.run upperCase events).committed := by
  induction events generalizing s with
  | nil => exact .refl s.committed
  | cons event rest ih => exact (extends_step s event).trans (ih _)

/-- A call that succeeds is seen by its session. -/
theorem working_step {s : CatalogSession} {call : CatalogCall} {db : CatalogTables}
    (h : call.apply upperCase s.working = .ok db) :
    (s.step upperCase (.call call)).working = db := by
  rw [step]
  split
  · rename_i db' hok
    exact Except.ok.inj (hok.symm.trans h)
  · rename_i e herror
    exact absurd (herror.symm.trans h) (by simp)

end CatalogSession

namespace CatalogTables

section Run

variable {upperCase : String → String} {db db' : CatalogTables} {c : ListingSearchCriteria}
  {l k : InstrumentListing}

/-- What the criteria say of a listing and its instrument. -/
theorem accepts_iff {i : Instrument} : c.accepts upperCase l i = true ↔
    (∀ isin, c.isin = some isin → i.isin = some isin) ∧
    (∀ figi, c.figi = some figi → i.figi = some figi) ∧
    (∀ assetClass, c.assetClass = some assetClass → i.assetClass = assetClass) ∧
    (∀ ticker, c.ticker = some ticker → l.ticker = ticker) ∧
    (∀ mic, c.mic = some mic → l.mic = some mic) ∧
    (∀ venue, c.venue = some venue → l.venue = venue) ∧
    ∀ currency, c.currency = some currency → l.currency = upperCase currency := by
  simp only [ListingSearchCriteria.accepts, Bool.and_eq_true, Option.all_eq_true, decide_eq_true_eq,
    and_assoc]

/-- **ISIN, venue, ticker and currency identify a listing**, whatever else is asked for. -/
theorem Matches.unique {isin venue ticker currency : String} (hisin : c.isin = some isin)
    (hvenue : c.venue = some venue) (hticker : c.ticker = some ticker)
    (hcurrency : c.currency = some currency) (hl : l ∈ db.listings.rows) (hk : k ∈ db.listings.rows)
    (hlm : db.Matches upperCase c l) (hkm : db.Matches upperCase c k) : l = k := by
  obtain ⟨i, hi, hli⟩ := hlm
  obtain ⟨i', hi', hki⟩ := hkm
  obtain ⟨hlisin, -, -, hlticker, -, hlvenue, hlcurrency⟩ := accepts_iff.mp hli
  obtain ⟨hkisin, -, -, hkticker, -, hkvenue, hkcurrency⟩ := accepts_iff.mp hki
  obtain ⟨himem, hipk⟩ := Table.get?_eq_some_iff.mp hi
  obtain ⟨himem', hipk'⟩ := Table.get?_eq_some_iff.mp hi'
  have hsame : i = i' := Table.eq_of_clash himem himem'
    (Or.inr ⟨by rw [hlisin isin hisin]; simp, (hlisin isin hisin).trans (hkisin isin hisin).symm⟩)
  have hinstrument : l.instrumentId = k.instrumentId := by rw [← hipk, ← hipk', hsame]
  refine Table.eq_of_clash hl hk (Or.inr ?_)
  rw [InstrumentListing.venueKey, InstrumentListing.venueKey, hinstrument,
    hlvenue venue hvenue, hkvenue venue hvenue, hlticker ticker hticker, hkticker ticker hticker,
    hlcurrency currency hcurrency, hkcurrency currency hcurrency]

/-- A listing is resolved exactly when it is the only one that satisfies the criteria. -/
theorem resolveSingleListing_eq_ok_iff_unique : db.resolveSingleListing upperCase c = .ok l ↔
    l ∈ db.listings.rows ∧ db.Matches upperCase c l ∧
      ∀ k ∈ db.listings.rows, db.Matches upperCase c k → k = l := by
  rw [resolveSingleListing_eq_ok_iff]
  constructor
  · intro h
    have hmem := mem_findListings.mp (h ▸ List.mem_singleton_self l)
    refine ⟨hmem.1, hmem.2, fun k hk hkm => ?_⟩
    exact List.mem_singleton.mp (h ▸ mem_findListings.mpr ⟨hk, hkm⟩)
  · rintro ⟨hl, hlm, hall⟩
    refine List.Perm.eq_singleton ((List.perm_ext_iff_of_nodup nodup_findListings
      (List.nodup_singleton l)).mpr fun k => ?_)
    rw [mem_findListings, List.mem_singleton]
    exact ⟨fun hk => hall k hk.1 hk.2, fun hk => hk ▸ ⟨hl, hlm⟩⟩

/-- A listing that is there, and that the criteria identify, is resolved. -/
theorem resolveSingleListing_of_complete {isin venue ticker currency : String}
    (hisin : c.isin = some isin) (hvenue : c.venue = some venue) (hticker : c.ticker = some ticker)
    (hcurrency : c.currency = some currency) (hl : l ∈ db.listings.rows)
    (hlm : db.Matches upperCase c l) : db.resolveSingleListing upperCase c = .ok l :=
  resolveSingleListing_eq_ok_iff_unique.mpr ⟨hl, hlm, fun _ hk hkm =>
    Matches.unique hisin hvenue hticker hcurrency hk hl hkm hlm⟩

/-- A listing that was resolved is resolved again in a larger catalog, or is among several. -/
theorem Extends.resolved (h : db.Extends db') (hl : db.resolveSingleListing upperCase c = .ok l) :
    db'.resolveSingleListing upperCase c = .ok l ∨
      ∃ e, db'.resolveSingleListing upperCase c = .error e ∧ l ∈ e.candidates ∧
        2 ≤ e.candidates.length := by
  have hgrown : db.findListings upperCase c <+: db'.findListings upperCase c := h.findListings
  rw [resolveSingleListing_eq_ok_iff.mp hl] at hgrown
  obtain ⟨more, hmore⟩ := hgrown
  replace hmore : db'.findListings upperCase c = [l] ++ more := hmore.symm
  cases more with
  | nil => exact Or.inl (resolveSingleListing_eq_ok_iff.mpr hmore)
  | cons k more =>
      refine Or.inr ⟨⟨db'.findListings upperCase c⟩, ?_, ?_, ?_⟩
      · exact resolveSingleListing_eq_error_iff.mpr ⟨rfl, by rw [hmore]; simp⟩
      · rw [hmore]
        exact List.mem_cons_self
      · rw [hmore, List.singleton_append, List.length_cons, List.length_cons]
        omega

end Run

/-- **A resolution never moves to another listing**: at any time, a listing is resolved exactly when it
is the only one that satisfies the criteria, and otherwise the error names all that do. A listing that
the committed catalog has resolved is resolved again after anything that the client of a session does,
or is one of the several that are then reported. -/
theorem resolution_never_relinks (upperCase : String → String) (s : CatalogSession)
    (events : List CatalogEvent) (c : ListingSearchCriteria) :
    let db' := (s.run upperCase events).working
    (∀ l, db'.resolveSingleListing upperCase c = .ok l ↔ l ∈ db'.listings.rows ∧
      db'.Matches upperCase c l ∧ ∀ k ∈ db'.listings.rows, db'.Matches upperCase c k → k = l) ∧
    (∀ e, db'.resolveSingleListing upperCase c = .error e → e.candidates.Nodup ∧
      ∀ k, k ∈ e.candidates ↔ k ∈ db'.listings.rows ∧ db'.Matches upperCase c k) ∧
    ∀ l, s.committed.resolveSingleListing upperCase c = .ok l →
      db'.resolveSingleListing upperCase c = .ok l ∨
        ∃ e, db'.resolveSingleListing upperCase c = .error e ∧ l ∈ e.candidates ∧
          2 ≤ e.candidates.length := by
  intro db'
  refine ⟨fun l => resolveSingleListing_eq_ok_iff_unique, fun e he => ?_, fun l hl => ?_⟩
  · obtain ⟨hcandidates, -⟩ := resolveSingleListing_eq_error_iff.mp he
    rw [hcandidates]
    exact ⟨nodup_findListings, fun k => mem_findListings⟩
  · exact ((CatalogSession.extends_run s events).trans (s.run upperCase events).grown).resolved hl

/-- **A registered listing is resolved for good**: once it has been added to an instrument with an
ISIN, and committed, the ISIN, the venue, the ticker and the currency, in any spelling of the same
upper case, lead back to it, whatever the client of a session then does. -/
theorem registered_listing_resolves {upperCase : String → String} {s : CatalogSession}
    {db₁ : CatalogTables} {instrument : Instrument}
    {isin venue ticker currency currency' : String} {mic : Option String} {uuid : ℕ}
    {listing : InstrumentListing} (hinstrument : instrument ∈ s.working.instruments.rows)
    (hisin : instrument.isin = some isin)
    (hadd : s.working.addListing upperCase instrument venue ticker currency mic uuid =
      .ok (listing, db₁))
    (hcurrency : upperCase currency' = upperCase currency) (events : List CatalogEvent) :
    let added := s.step upperCase (.call (.addListing instrument venue ticker currency mic uuid))
    let final := (added.step upperCase .commit).run upperCase events
    final.working.resolveSingleListing upperCase
      ⟨some isin, none, some ticker, none, some venue, some currency', none⟩ = .ok listing := by
  intro added final
  obtain ⟨hgrown, hmem, hlisting⟩ := addListing_eq_ok hadd
  have hworking : added.working = db₁ :=
    CatalogSession.working_step (by rw [CatalogCall.apply, hadd]; rfl)
  have hlater : db₁.Extends final.working :=
    hworking ▸ (CatalogSession.extends_run (added.step upperCase .commit) events).trans final.grown
  have hfind : s.working.instruments.get? instrument.id = some instrument :=
    Table.get?_eq_some_iff.mpr ⟨hinstrument, rfl⟩
  have hparent := Table.get?_of_subset (hgrown.trans hlater).instruments.subset hfind
  refine resolveSingleListing_of_complete rfl rfl rfl rfl (hlater.listings.subset hmem)
    ⟨instrument, by rw [hlisting]; exact hparent, accepts_iff.mpr ?_⟩
  rw [hlisting]
  simp [hisin, hcurrency]

/-- A second listing of the same venue, ticker and currency: its call fails, and rolls back what the
session has registered since the commit. The first listing is asked for in lower case. -/
theorem registered_listing_resolves_again :
    let sap : Instrument := ⟨1, .equity, "SAP SE", some "DE0007164600", none⟩
    let registered := (CatalogSession.begin empty).run upper
      [.call (.registerInstrument .equity "SAP SE" (some "DE0007164600") none 1)]
    let final := ((registered.step upper (.call (.addListing sap "XETR" "SAP" "EUR" none 2))).step
      upper .commit).run upper [.call (.registerInstrument .crypto "Bitcoin" none none 3),
        .call (.addListing sap "XETR" "SAP" "eur" none 4)]
    final.working.instruments.rows = [sap] ∧
      final.working.resolveSingleListing upper
        ⟨some "DE0007164600", none, some "SAP", none, some "XETR", some "eur", none⟩ =
          .ok ⟨2, 1, none, "XETR", "SAP", "EUR"⟩ := by
  intro sap registered final
  obtain ⟨db₁, hadd⟩ : ∃ db₁, registered.working.addListing upper sap "XETR" "SAP" "EUR" none 2 =
      .ok (⟨2, 1, none, "XETR", "SAP", "EUR"⟩, db₁) := ⟨_, rfl⟩
  have hsap : sap ∈ registered.working.instruments.rows := by decide +kernel
  exact ⟨by decide +kernel, registered_listing_resolves hsap rfl hadd (by decide +kernel) _⟩

end CatalogTables

end MarketRelay
