import KvasirNet.GatewayNodes

/-! Model pricing: the store behind `loadPricing`, the admin write on the
source, and the two ways a relay or a follower adopts a newer price list. -/
namespace KvasirNet.Gateway

/-- `DEFAULT_PRICING`. -/
def defaultPricing : Price := ⟨1 / 2, 1 / 100, 256⟩

def Price.patch (p : Price) : PricePatch := ⟨some p.basePrice, some p.perToken, some p.estOut⟩

/-- `{ ...p, ...q }`. -/
def Price.merge (p : Price) (q : PricePatch) : Price :=
  ⟨q.basePrice.getD p.basePrice, q.perToken.getD p.perToken, q.estOut.getD p.estOut⟩

@[simp]
theorem Price.merge_patch (p q : Price) : p.merge q.patch = q := rfl

/-- `db.pricing` after `loadPricing`: every field of the default is there. -/
structure LoadedPricing where
  defaults : Price
  perModel : Table ModelId PricePatch
  updatedAt : ℕ
  updatedBy : Option String
  deriving DecidableEq

def loadPricing (stored : Option Pricing) : LoadedPricing :=
  match stored with
  | none => ⟨defaultPricing, ∅, 0, none⟩
  | some p => ⟨defaultPricing.merge p.defaults, p.perModel, p.updatedAt, p.updatedBy⟩

def LoadedPricing.store (p : LoadedPricing) : Pricing :=
  ⟨p.defaults.patch, p.perModel, p.updatedAt, p.updatedBy⟩

@[simp]
theorem loadPricing_store (p : LoadedPricing) : loadPricing (some p.store) = p := rfl

/-- Effective price of a model: its override merged over the default. -/
def pricingFrom (p : LoadedPricing) (modelId : ModelId) : Price :=
  if modelId = "" then p.defaults
  else
    match p.perModel.lookup modelId with
    | some patch => p.defaults.merge patch
    | none => p.defaults

def pricingFor (db : DB) (modelId : ModelId) : Price := pricingFrom (loadPricing db.pricing) modelId

/-- `num(v)` in the admin handler: a finite, non-negative number or nothing. -/
def priceNumber : Option JsNumber → Option ℚ
  | some (.fin q) => if q < 0 then none else some q
  | _ => none

structure PriceChange where
  modelId : Option ModelId
  basePrice : Option JsNumber
  perToken : Option JsNumber
  estOut : Option JsNumber
  deriving DecidableEq

def PriceChange.price (c : PriceChange) : Option Price :=
  match priceNumber c.basePrice, priceNumber c.perToken, priceNumber c.estOut with
  | some bp, some pt, some eo => some ⟨bp, pt, eo⟩
  | _, _, _ => none

/-- `(modelId && modelId !== 'default') ? String(modelId) : 'default'`. -/
def PriceChange.target (c : PriceChange) : String :=
  match c.modelId with
  | some id => if id = "" then "default" else id
  | none => "default"

/-- The pricing `POST /api/admin/pricing` stores. -/
def LoadedPricing.change (p : LoadedPricing) (target : String) (next : Price) (now : ℕ)
    (genesis : Wallet) : LoadedPricing :=
  if target = "default" then
    { p with defaults := next, updatedAt := now, updatedBy := some genesis }
  else
    { p with
      perModel := p.perModel.insert target next.patch
      updatedAt := now
      updatedBy := some genesis }

/-- `prev` in the audit row. -/
def LoadedPricing.previous (p : LoadedPricing) (target : String) : PricePatch :=
  if target = "default" then p.defaults.patch
  else (p.perModel.lookup target).getD p.defaults.patch

/-- `GET /api/pay/pricing`, and the body of a push. -/
structure PricePayload where
  defaults : Option PricePatch
  perModel : Option (Table ModelId PricePatch)
  updatedAt : ℕ
  genesis : Option Wallet
  deriving DecidableEq

def LoadedPricing.payload (p : LoadedPricing) (genesis : Wallet) : PricePayload :=
  ⟨some p.defaults.patch, some p.perModel, p.updatedAt, some genesis⟩

/-- Both adoption paths overwrite the default field by field and replace the
overrides. -/
def LoadedPricing.overwrite (p : LoadedPricing) (defaults : PricePatch) (b : PricePayload)
    (updatedAt : ℕ) (updatedBy : String) : LoadedPricing where
  defaults := p.defaults.merge defaults
  perModel := b.perModel.getD ∅
  updatedAt := updatedAt
  updatedBy := some updatedBy

/-- `POST /api/pay/pricing/push` after its key check: the pricing to store, or
nothing when the payload is not newer. -/
def adoptPush (genesis : Wallet) (p : LoadedPricing) (b : PricePayload) :
    Except Refusal (Option LoadedPricing) :=
  match b.defaults with
  | none => .error .missingDefaultPricing
  | some d =>
    if b.genesis.any fun g => g != "" && g != genesis then .error .genesisMismatch
    else if b.updatedAt ≤ p.updatedAt then .ok none
    else .ok (some (p.overwrite d b b.updatedAt "genesis-push"))

/-- `syncPricingFromGenesis` on a fetched payload. The clock stands in when the
payload carries no time, which a newer payload always does. -/
def adoptSync (url : String) (p : LoadedPricing) (b : PricePayload) (now : ℕ) :
    Option LoadedPricing :=
  match b.defaults with
  | none => none
  | some d =>
    if b.updatedAt ≤ p.updatedAt then none
    else some (p.overwrite d b (if b.updatedAt = 0 then now else b.updatedAt)
      ("genesis-sync:" ++ url))

end KvasirNet.Gateway
