import AstrLink.Billing
import AstrLink.PriceExpressions

/-!
Price catalogs. A sync saves the catalog that was published under the digest of its
content; a version that is stored already is left as it is, with the time at which it
was first activated. The catalog in force is the one activated last, and a request is
valued by the one activated last at its start.
-/
namespace AstrLink.PriceCatalogs
open Billing Tables

/-- A catalog; `D` is what else its document holds. -/
structure Catalog (D : Type) where
  version : String
  activatedAt : Nat
  prices : List Price
  details : D
deriving DecidableEq

def Providers : List String :=
  ["openai", "anthropic", "moonshotai", "zai", "minimax", "google", "deepseek", "alibaba", "xai", "mistral", "cohere",
    "meta", "perplexity", "stepfun", "inception", "longcat", "bailing", "morph", "nvidia"]

structure PricingStore (Usage D : Type) where
  billing : World Usage
  documents : Table String (Catalog D)

section
variable {Usage D : Type}

/-- The document of the version activated last. -/
def PricingStore.PricingCatalog (store : PricingStore Usage D) : Option (Catalog D) :=
  store.documents.lookup (store.billing.store.activeVersion none)

variable (library : Library Usage) (parse : String → Option PriceExpressions.Node)

def ValidateExpression (expression : String) : Bool :=
  match PriceExpressions.parseExpression parse expression with
  | .ok _ => true
  | .error _ => false

/-- `SavePricingCatalog`; none when it fails and its transaction is undone. -/
def PricingStore.SavePricingCatalog [DecidableEq Usage] (store : PricingStore Usage D) (catalog : Catalog D) :
    Option (PricingStore Usage D) :=
  if catalog.version = "" ∨ catalog.activatedAt = 0 ∨ catalog.prices = [] then none
  else if catalog.prices.any fun price => !Providers.contains price.provider || !ValidateExpression parse price.expression then none
  else
    (store.billing.step library (.savePricingCatalog catalog.version catalog.activatedAt catalog.prices)).map fun billing =>
      { billing
        documents := if (store.documents.lookup catalog.version).isSome then store.documents
          else store.documents.insert catalog.version catalog }

structure History (Usage D : Type) where
  store : PricingStore Usage D
  saves : List (Catalog D)

inductive Act (Usage D : Type) where
  | save (catalog : Catalog D)
  /-- Anything else that the billing store does. -/
  | bill (act : Billing.Act Usage)

def savesCatalog : Billing.Act Usage → Bool
  | .savePricingCatalog .. => true
  | _ => false

def History.step [DecidableEq Usage] (history : History Usage D) : Act Usage D → Option (History Usage D)
  | .save catalog =>
    match history.store.SavePricingCatalog library parse catalog with
    | some store => some { store, saves := history.saves ++ [catalog] }
    | none => some history
  | .bill act =>
    if savesCatalog act then none
    else (history.store.billing.step library act).map fun billing =>
      { history with store := { history.store with billing } }

/-- No catalog was saved yet. -/
def History.start (services : Table String Service) : History Usage D :=
  { store := { billing := Billing.start services, documents := ∅ }, saves := [] }

end

end AstrLink.PriceCatalogs
