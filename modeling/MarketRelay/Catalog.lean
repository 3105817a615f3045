import Mathlib.Data.List.Sort
import MarketRelay.Ports

/-!
# The Catalog

Listings, and the identifiers by which providers know them. A provider's identifier is valid
for a range of dates, and may denote another listing at another time. The modelled code only
reads the catalog.

## Main results

* `Catalog.mem_selectIdentities`: which identities a refresh considers.
-/

open Gregorian

namespace MarketRelay

/-- A provider's identifier of a listing, valid for a range of dates. -/
structure ExternalIdentity where
  listingId : ℕ
  source : String
  externalId : String
  validFrom : Date
  validTo : Option Date
deriving DecidableEq, Repr

/-- A listing, with the asset class of its instrument. -/
structure Listing where
  id : ℕ
  assetClass : AssetClass
  venue : String
  mic : Option String
deriving DecidableEq, Repr

structure Catalog where
  identities : List ExternalIdentity
  listings : List Listing
deriving DecidableEq, Repr

def Catalog.listing? (catalog : Catalog) (id : ℕ) : Option Listing :=
  catalog.listings.find? fun listing => decide (listing.id = id)

/-- The order of `ORDER BY listing_id, valid_from`. -/
def ExternalIdentity.RefreshLe (a b : ExternalIdentity) : Prop :=
  a.listingId < b.listingId ∨ (a.listingId = b.listingId ∧ a.validFrom ≤ b.validFrom)

instance : DecidableRel ExternalIdentity.RefreshLe := fun _ _ => inferInstanceAs (Decidable (_ ∨ _))

/-- The identities of the source that have not expired. -/
def Catalog.currentIdentities (catalog : Catalog) (source : String) (today : Date) :
    List ExternalIdentity :=
  catalog.identities.filter fun identity =>
    decide (identity.source = source) &&
      identity.validTo.all fun validTo => decide (today ≤ validTo)

/-- The identities that a refresh considers: a bounded number of those that have not expired. -/
def Catalog.selectIdentities (catalog : Catalog) (source : String) (today : Date) (limit : ℕ) :
    List ExternalIdentity :=
  ((catalog.currentIdentities source today).insertionSort ExternalIdentity.RefreshLe).take limit

/-- The identities that a refresh considers are of the catalog. -/
theorem Catalog.mem_selectIdentities {catalog : Catalog} {source : String} {today : Date} {limit : ℕ}
    {identity : ExternalIdentity}
    (h : identity ∈ catalog.selectIdentities source today limit) :
    identity ∈ catalog.identities ∧ identity.source = source ∧
      ∀ validTo, identity.validTo = some validTo → today ≤ validTo := by
  have hmem := List.mem_of_mem_take h
  rw [List.mem_insertionSort, currentIdentities, List.mem_filter] at hmem
  obtain ⟨hmem, hcond⟩ := hmem
  simp only [Bool.and_eq_true, decide_eq_true_eq] at hcond
  refine ⟨hmem, hcond.1, fun validTo hvalid => ?_⟩
  simpa [hvalid] using hcond.2

end MarketRelay
