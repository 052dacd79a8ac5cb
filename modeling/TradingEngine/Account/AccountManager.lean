import Mathlib.Data.List.AList
import TradingEngine.Json.StringBuilder
import TradingEngine.Order.JsonForm

/-!
# Account/AccountManager — the accounts, their gateways and their collection

`AccountManager` keeps an object for every account, `Gateway` a map of those that are active, and
the collection `account` a document for each.  Pointers to the objects are shared by the two maps.

The exchange, which says whether the keys of an account are good, and the collection's driver are
outside: `balances` is what `get_balances` comes to (nothing if it never answers, and then neither
does the thread that waits for it), and `stored` makes of a document what a later query finds.
-/

namespace TradingEngine

open Ascii JsonItem

/-! ## Accounts -/

/-- What the classes of accounts hold beside their order entry; `m_api_passphrase` belongs to
`CoinbaseAccount` alone. -/
structure AccountData where
  exchangeId : ExchangeId
  keyName : List UInt8 := []
  apiKey : List UInt8 := []
  apiSecret : List UInt8 := []
  apiPassphrase : List UInt8 := []
  isActive : Bool := true
  deriving DecidableEq

/-- `BinanceOrderEntry`, by what its quoters copy of the account; their connections are left out. -/
structure OrderEntry where
  key : List UInt8
  apiKey : List UInt8
  apiSecret : List UInt8
  isTestnet : Bool
  deriving DecidableEq

/-- `AccountBase`. -/
structure Account where
  data : AccountData
  orderEntry : Option OrderEntry := none
  deriving DecidableEq

/-- `data[key] = value`. -/
def JsonItem.assign (t : JsonItem) (key : List UInt8) (value : JsonItem) : JsonItem :=
  t.put (fun _ => value) (.key key)

/-- The conversion to `bool`. -/
def JsonItem.toBool (t : JsonItem) : Bool :=
  match t.convert .bool with
  | some (.bool b) => b
  | _ => false

namespace AccountData

variable (doubles : DoubleText)

/-- `to_json` of the class of the exchange. -/
def toJson (a : AccountData) : JsonItem :=
  let data := JsonItem.nullptr
    |>.assign (text "exchange_id") (ofText (Reflected.name a.exchangeId))
    |>.assign (text "api_key") (.value (.string a.apiKey))
    |>.assign (text "api_secret") (.value (.string a.apiSecret))
  let data :=
    if a.exchangeId = .coinbase then
      data.assign (text "api_passphrase") (.value (.string a.apiPassphrase))
    else data
  data
    |>.assign (text "key") (.value (.string a.keyName))
    |>.assign (text "is_active") (.value (.bool a.isActive))

/-- `from_json` of the class of the exchange. -/
def fromJson (a : AccountData) (data : JsonItem) : AccountData where
  exchangeId := a.exchangeId
  keyName := (data.field (text "key")).toStdString doubles
  apiKey := (data.field (text "api_key")).toStdString doubles
  apiSecret := (data.field (text "api_secret")).toStdString doubles
  apiPassphrase :=
    if a.exchangeId = .coinbase then (data.field (text "api_passphrase")).toStdString doubles
    else a.apiPassphrase
  isActive := (data.field (text "is_active")).toBool

/-- `get_account_factory_array`.  There is an empty function for no exchange, and nothing in the
array for `TOTAL_EXCHANGES`. -/
def factory : ExchangeId → Option AccountData
  | .binance => some { exchangeId := .binance }
  | .binanceTestnet => some { exchangeId := .binanceTestnet }
  | .coinbase => some { exchangeId := .coinbase }
  | .noneExchange | .totalExchanges => none

/-- `create_account_from_data`; the empty function throws, which ends the program. -/
def create (data : JsonItem) : Option AccountData :=
  (factory (readEnum doubles (data.field (text "exchange_id")))).map (·.fromJson doubles data)

/-- The constructor of `BinanceQuoter`. -/
def quoter (a : AccountData) : OrderEntry where
  key := a.keyName
  apiKey := a.apiKey
  apiSecret := a.apiSecret
  isTestnet := a.exchangeId = .binanceTestnet

/-- `get_order_entry` of the gateway of the exchange. -/
def getOrderEntry (a : AccountData) : Option OrderEntry :=
  if a.exchangeId = .coinbase then none else some a.quoter

/-- `validate_account` of the gateway of the exchange; nothing if it does not return. -/
def validate (a : AccountData) (balances : Option JsonItem) : Option (Except (List UInt8) Unit) :=
  if a.exchangeId = .coinbase then some (.ok ())
  else
    balances.bind fun balances =>
      (balances.hasField (text "code")).bind fun hasCode =>
        if hasCode then
          ((balances.field (text "code")).toInteger (-2 ^ 31) (2 ^ 31 - 1)).map fun code =>
            if code < 0 then
              .error ((balances.field (text "msg")).toStdString doubles ++ text ", code: " ++
                Json.intToChars code)
            else .ok ()
        else some (.ok ())

end AccountData

/-! ## The collection -/

/-- The collection `account`, without the `_id`s of its documents. -/
abbrev AccountCollection := List JsonItem

/-- The document has this key. -/
def HasKey (key : List UInt8) (doc : JsonItem) : Prop :=
  doc.field (text "key") = .value (.string key)

instance (key : List UInt8) (doc : JsonItem) : Decidable (HasKey key doc) :=
  match h : doc.field (text "key") with
  | .value (.string s) => decidable_of_iff (s = key) (by simp [HasKey, h])
  | .nullptr | .object _ _ _ => .isFalse (by simp [HasKey, h])
  | .value .null | .value (.bool _) | .value (.int _) | .value (.double _) =>
    .isFalse (by simp [HasKey, h])

namespace AccountCollection

/-- `load_account_by_key`. -/
def findOne (db : AccountCollection) (key : List UInt8) : Option JsonItem := db.find? (HasKey key ·)

/-- `update_account_in_db`: the first document with the key. -/
def replaceOne (key : List UInt8) (doc : JsonItem) : AccountCollection → AccountCollection
  | [] => []
  | d :: db => if HasKey key d then doc :: db else d :: replaceOne key doc db

end AccountCollection

/-! ## The process -/

/-- `AccountManager`, and the `m_accounts` of the gateways.  A pointer is an index. -/
structure AccountManager where
  objects : List Account := []
  allAccounts : AList (fun _ : List UInt8 => ℕ) := ∅
  accounts : ExchangeId → AList (fun _ : List UInt8 => ℕ) := fun _ => ∅

namespace AccountManager

variable (m : AccountManager)

/-- `std::make_shared`. -/
def construct (account : Account) : AccountManager := { m with objects := m.objects ++ [account] }

/-- `all_accounts.emplace`: a key that is there keeps its account. -/
def emplace (key : List UInt8) (ptr : ℕ) : AccountManager :=
  if key ∈ m.allAccounts then m else { m with allAccounts := m.allAccounts.insert key ptr }

/-- `Gateway::add_account` of the gateway of the exchange. -/
def gatewayAdd (exchange : ExchangeId) (ptr : ℕ) : AccountManager :=
  match m.objects[ptr]? with
  | none => m
  | some account =>
    { m with
      objects := m.objects.set ptr { account with orderEntry := account.data.getOrderEntry }
      accounts := Function.update m.accounts exchange
        ((m.accounts exchange).insert account.data.keyName ptr) }

/-- `Gateway::remove_account`. -/
def gatewayRemove (exchange : ExchangeId) (ptr : ℕ) : AccountManager :=
  match m.objects[ptr]? with
  | none => m
  | some account =>
    if account.data.keyName ∈ m.accounts exchange then
      { m with
        objects := m.objects.set ptr { account with orderEntry := none }
        accounts := Function.update m.accounts exchange
          ((m.accounts exchange).erase account.data.keyName) }
    else m

/-- `get_account_by_key`. -/
def getAccountByKey (key : List UInt8) : Option Account :=
  (m.allAccounts.lookup key).bind (m.objects[·]?)

/-- An account that a gateway has under a key. -/
def gatewayAccount (exchange : ExchangeId) (key : List UInt8) : Option Account :=
  ((m.accounts exchange).lookup key).bind (m.objects[·]?)

/-- `get_active_accounts`. -/
def getActiveAccounts : List Account :=
  (m.allAccounts.entries.filterMap fun entry => m.objects[entry.2]?).filter (·.data.isActive)

variable (doubles : DoubleText) (stored : JsonItem → JsonItem)

/-- The body of the loop of `init`. -/
def loadAccount (doc : JsonItem) : Option AccountManager :=
  (AccountData.create doubles doc).map fun data =>
    let ptr := m.objects.length
    let loaded := (m.construct ⟨data, none⟩).emplace data.keyName ptr
    if data.isActive then loaded.gatewayAdd data.exchangeId ptr else loaded

/-- `init`. -/
def init (db : AccountCollection) : Option AccountManager :=
  db.foldlM (fun m doc => m.loadAccount doubles doc) {}

/-- What a call of `add_account` or `set_active_account` returns. -/
abbrev Result := Except (List UInt8) Unit

/-- The account behind a new pointer goes into the gateway, and stays if it is active and valid. -/
def register (data : AccountData) (result : Result) : AccountManager :=
  let ptr := m.objects.length
  let added := (m.construct ⟨data, none⟩).gatewayAdd data.exchangeId ptr
  match result with
  | .error _ => added.gatewayRemove data.exchangeId ptr
  | .ok () =>
    (if data.isActive then added else added.gatewayRemove data.exchangeId ptr).emplace
      data.keyName ptr

/-- `add_account`. -/
def addAccount (db : AccountCollection) (data : JsonItem) (balances : Option JsonItem) :
    Option (AccountManager × Result) × AccountCollection :=
  let key := (data.field (text "key")).toStdString doubles
  match db.findOne key with
  | some _ => (some (m, .error (text "Account [" ++ key ++ text "] already exists")), db)
  | none =>
    match AccountData.create doubles data with
    | none => (none, db)
    | some account =>
      match account.validate doubles balances with
      | none => (none, db)
      | some (.error error) => (some (m.register account (.error error), .error error), db)
      | some (.ok ()) => (some (m.register account (.ok ()), .ok ()), db ++ [stored data])

/-- `set_active_account`. -/
def setActiveAccount (db : AccountCollection) (key : List UInt8) (isActive : Bool) :
    Option (AccountManager × Result) × AccountCollection :=
  match m.allAccounts.lookup key with
  | none => (some (m, .error (text "Account with key [" ++ key ++ text "] not found")), db)
  | some ptr =>
    match m.objects[ptr]? with
    | none => (none, db)
    | some account =>
      let data := { account.data with isActive := isActive }
      let changed := { m with objects := m.objects.set ptr { account with data := data } }
      (some (if isActive then changed.gatewayAdd data.exchangeId ptr
          else changed.gatewayRemove data.exchangeId ptr, .ok ()),
        db.replaceOne key (stored data.toJson))

end AccountManager

end TradingEngine
