import TradingEngine.Account.AccountManager
import TradingEngine.Machinery.Durable

/-!
# Account/Registry — what the accounts are for

One map from keys to accounts: `AccountRegistry` serves every request from it and knows neither
objects nor gateways nor documents.  Beside it stands the same for `AccountManager` and its
collection.

A document has to come back from the collection as it was put in (`Faithful`); of texts outside
printable ASCII, and of documents that overrun the buffer of `get_string_value`, this is not asked.
The document of a request and that of an account are then made into the account again
(`CompleteRequest.records`, `records_stored`).
-/

namespace TradingEngine

open Ascii JsonItem

/-- The accounts by their keys. -/
abbrev AccountRegistry := List UInt8 → Option AccountData

/-- The object of an account: it has an order entry while it is active, if its exchange has one. -/
def AccountData.object (a : AccountData) : Account :=
  ⟨a, if a.isActive then a.getOrderEntry else none⟩

/-- What is asked of the process: the calls of the API handlers, and what its maps and documents
have under a key. -/
inductive AccountRequest
  | addAccount (data : JsonItem) (balances : Option JsonItem)
  | setActiveAccount (key : List UInt8) (isActive : Bool)
  | getAccountByKey (key : List UInt8)
  | gatewayAccount (exchange : ExchangeId) (key : List UInt8)
  | getActiveAccounts (key : List UInt8)
  | loadAllAccounts (key : List UInt8)

inductive AccountAnswer
  | result (result : AccountManager.Result)
  | account (account : Option Account)
  | accounts (accounts : List AccountData)

variable (doubles : DoubleText) (stored : JsonItem → JsonItem)

namespace AccountRegistry

/-- `add_account` and `set_active_account` of the map. -/
def addAccount (r : AccountRegistry) (data : JsonItem) (balances : Option JsonItem) :
    Option AccountManager.Result × AccountRegistry :=
  let key := (data.field (text "key")).toStdString doubles
  match r key, AccountData.create doubles data with
  | some _, _ => (some (.error (text "Account [" ++ key ++ text "] already exists")), r)
  | none, none => (none, r)
  | none, some a =>
    match a.validate doubles balances with
    | none => (none, r)
    | some (.error error) => (some (.error error), r)
    | some (.ok ()) => (some (.ok ()), Function.update r key (some a))

def setActiveAccount (r : AccountRegistry) (key : List UInt8) (isActive : Bool) :
    Option AccountManager.Result × AccountRegistry :=
  match r key with
  | none => (some (.error (text "Account with key [" ++ key ++ text "] not found")), r)
  | some a => (some (.ok ()), Function.update r key (some { a with isActive := isActive }))

/-- The map as a specification. -/
def spec : Durable.Spec AccountRegistry AccountRequest AccountAnswer where
  serve r
    | .addAccount data balances =>
      ((r.addAccount doubles data balances).1.map .result, (r.addAccount doubles data balances).2)
    | .setActiveAccount key isActive =>
      ((r.setActiveAccount key isActive).1.map .result, (r.setActiveAccount key isActive).2)
    | .getAccountByKey key => (some (.account ((r key).map (·.object))), r)
    | .gatewayAccount exchange key =>
      (some (.account (((r key).filter fun a => a.exchangeId = exchange ∧ a.isActive).map
        (·.object))), r)
    | .getActiveAccounts key => (some (.accounts ((r key).filter (·.isActive)).toList), r)
    | .loadAllAccounts key => (some (.accounts (r key).toList), r)

end AccountRegistry

/-- The process and its collection. -/
def AccountManager.process :
    Durable.Process AccountCollection AccountManager AccountRequest AccountAnswer where
  start := AccountManager.init doubles
  serve m db
    | .addAccount data balances =>
      let served := m.addAccount doubles stored db data balances
      (served.1.map fun answer => (answer.1, .result answer.2), served.2)
    | .setActiveAccount key isActive =>
      let served := m.setActiveAccount stored db key isActive
      (served.1.map fun answer => (answer.1, .result answer.2), served.2)
    | .getAccountByKey key => (some (m, .account (m.getAccountByKey key)), db)
    | .gatewayAccount exchange key => (some (m, .account (m.gatewayAccount exchange key)), db)
    | .getActiveAccounts key =>
      (some (m, .accounts ((m.getActiveAccounts.map (·.data)).filter (·.keyName = key))), db)
    | .loadAllAccounts key =>
      (some (m, .accounts ((db.filter (HasKey key ·)).filterMap (AccountData.create doubles))), db)

/-! ## What comes back from the collection -/

/-- A text that is stored as it is. -/
def Printable (s : List UInt8) : Prop := ∀ c ∈ s, 32 ≤ c ∧ c < 127 ∧ c ≠ quote ∧ c ≠ backslash

/-- A boolean, or such a text. -/
inductive Storable : JsonItem → Prop
  | bool (b : Bool) : Storable (.value (.bool b))
  | string {s : List UInt8} (h : Printable s) : Storable (.value (.string s))

/-- The text of the document fits the buffer of `get_string_value`. -/
def Fits (doc : JsonItem) : Prop :=
  (doc.erase.write doubles).length ≤ JsonStringBuilder.stringBufferSize

/-- **What is relied on of the collection**: such fields of a document that fits come back. -/
def Faithful : Prop :=
  ∀ {doc : JsonItem}, Fits doubles doc → ∀ name, Storable (doc.field name) →
    (stored doc).field name = doc.field name

/-- A document as it comes back where its texts do: with the `_id` it is given. -/
def withObjectId (doc : JsonItem) : JsonItem :=
  match doc.field (text "_id") with
  | .nullptr => doc.put (fun _ => ofPairs [(text "$oid", ofText "65a1f0c2e4b0a1b2c3d4e5f6")])
      (.key (text "_id"))
  | _ => doc

theorem field_withObjectId {doc : JsonItem} {name : List UInt8}
    (h : name ≠ text "_id" ∨ doc.field name ≠ .nullptr) :
    (withObjectId doc).field name = doc.field name := by
  rw [withObjectId]
  split
  case h_1 hnull =>
    have hne : name ≠ text "_id" := by
      rintro rfl
      exact h.elim (fun hname => hname rfl) fun hfield => hfield hnull
    exact slot_put_of_ne fun heq => hne (JsonIndex.key.inj heq)
  case h_2 => rfl

theorem faithful_withObjectId : Faithful doubles withObjectId := by
  intro doc _ name hname
  refine field_withObjectId (.inr fun hnull => ?_)
  rw [hnull] at hname
  cases hname

/-- A request for a new account that names all it consists of: its texts are storable, its key is
one, and its exchange is not the one past the end of the array. -/
structure CompleteRequest (data : JsonItem) : Prop where
  fits : Fits doubles data
  exchange : Storable (data.field (text "exchange_id")) ∧
    readEnum doubles (data.field (text "exchange_id")) ≠ ExchangeId.totalExchanges
  key : ∃ key, Printable key ∧ HasKey key data
  apiKey : Storable (data.field (text "api_key"))
  apiSecret : Storable (data.field (text "api_secret"))
  apiPassphrase : readEnum doubles (data.field (text "exchange_id")) = ExchangeId.coinbase →
    Storable (data.field (text "api_passphrase"))
  isActive : Storable (data.field (text "is_active"))
  accountFits : ∀ a ∈ AccountData.create doubles data, ∀ isActive,
    Fits doubles { a with isActive := isActive }.toJson

/-- A legal request. -/
def AccountRequest.Legal : AccountRequest → Prop
  | .addAccount data _ => CompleteRequest doubles data
  | _ => True

/-! ## Documents -/

section Documents

variable {doubles stored} {t x : JsonItem} {key k : List UInt8} {a : AccountData}
  {doc data : JsonItem}

theorem JsonItem.field_assign (t : JsonItem) (key : List UInt8) (x : JsonItem) :
    (t.assign key x).field key = x := t.slot_put _ (.key key)

theorem JsonItem.field_assign_of_ne (h : key ≠ k) : (t.assign k x).field key = t.field key :=
  slot_put_of_ne fun heq => h (JsonIndex.key.inj heq)

@[simp] theorem JsonItem.toBool_bool (b : Bool) : toBool (.value (.bool b)) = b := by
  cases b <;> rfl

/-- What is known of an account of the registry. -/
structure AccountData.Sound (doubles : DoubleText) (a : AccountData) : Prop where
  exchange : (factory a.exchangeId).isSome = true
  keyName : Printable a.keyName
  apiKey : Printable a.apiKey
  apiSecret : Printable a.apiSecret
  apiPassphrase :
    if a.exchangeId = .coinbase then Printable a.apiPassphrase else a.apiPassphrase = []
  fits : ∀ isActive, Fits doubles { a with isActive := isActive }.toJson

theorem AccountData.Sound.setActive (h : a.Sound doubles) (isActive : Bool) :
    AccountData.Sound doubles { a with isActive := isActive } :=
  ⟨h.exchange, h.keyName, h.apiKey, h.apiSecret, h.apiPassphrase, h.fits⟩

/-- The document is the one of the account. -/
structure Records (doubles : DoubleText) (doc : JsonItem) (a : AccountData) : Prop where
  key : HasKey a.keyName doc
  restored : AccountData.create doubles doc = some a
  sound : a.Sound doubles

namespace AccountData

/-- The fields of the document of an account. -/
theorem field_toJson (a : AccountData) :
    a.toJson.field (text "exchange_id") = ofText (Reflected.name a.exchangeId) ∧
      a.toJson.field (text "api_key") = .value (.string a.apiKey) ∧
      a.toJson.field (text "api_secret") = .value (.string a.apiSecret) ∧
      (a.exchangeId = .coinbase →
        a.toJson.field (text "api_passphrase") = .value (.string a.apiPassphrase)) ∧
      HasKey a.keyName a.toJson ∧
      a.toJson.field (text "is_active") = .value (.bool a.isActive) := by
  rw [toJson]
  split
  case isTrue hcoinbase =>
    refine ⟨?_, ?_, ?_, fun _ => ?_, ?_, field_assign _ _ _⟩ <;>
      simp (disch := (rw [text_ofList, text_ofList]; decide)) only
        [HasKey, field_assign, field_assign_of_ne]
  case isFalse hother =>
    refine ⟨?_, ?_, ?_, fun heq => absurd heq hother, ?_, field_assign _ _ _⟩ <;>
      simp (disch := (rw [text_ofList, text_ofList]; decide)) only
        [HasKey, field_assign, field_assign_of_ne]

/-- An account is made from what a few fields hold. -/
theorem create_congr {doc' : JsonItem}
    (hexchange : doc.field (text "exchange_id") = doc'.field (text "exchange_id"))
    (hkey : doc.field (text "key") = doc'.field (text "key"))
    (hapiKey : doc.field (text "api_key") = doc'.field (text "api_key"))
    (hapiSecret : doc.field (text "api_secret") = doc'.field (text "api_secret"))
    (hapiPassphrase : readEnum doubles (doc'.field (text "exchange_id")) = ExchangeId.coinbase →
      doc.field (text "api_passphrase") = doc'.field (text "api_passphrase"))
    (hisActive : doc.field (text "is_active") = doc'.field (text "is_active")) :
    create doubles doc = create doubles doc' := by
  rw [create, create, hexchange]
  cases hread : (readEnum doubles (doc'.field (text "exchange_id")) : ExchangeId) with
  | coinbase =>
    simp only [factory, Option.map_some, fromJson, hkey, hapiKey, hapiSecret, hapiPassphrase hread,
      hisActive]
  | binance | binanceTestnet =>
    simp only [factory, Option.map_some, fromJson, hkey, hapiKey, hapiSecret, hisActive,
      reduceCtorEq, if_false]
  | noneExchange | totalExchanges => rfl

theorem factory_exchangeId {exchange : ExchangeId} (h : factory exchange = some a) :
    a.exchangeId = exchange ∧ a.apiPassphrase = [] := by
  cases exchange <;> cases h <;> exact ⟨rfl, rfl⟩

/-- **An account is made again from its document.** -/
theorem create_toJson (h : a.Sound doubles) : create doubles a.toJson = some a := by
  obtain ⟨hexchange, hapiKey, hapiSecret, hapiPassphrase, hkey, hisActive⟩ := a.field_toJson
  obtain ⟨fresh, hfresh⟩ := Option.isSome_iff_exists.mp h.exchange
  obtain ⟨hid, hempty⟩ := factory_exchangeId hfresh
  rw [HasKey] at hkey
  rw [create, hexchange, readEnum_name a.exchangeId.inTable, hfresh, Option.map_some, fromJson,
    hkey, hapiKey, hapiSecret, hisActive, hid, hempty, toBool_bool]
  have hpassphrase := h.apiPassphrase
  by_cases hcoinbase : a.exchangeId = .coinbase
  · rw [if_pos hcoinbase, hapiPassphrase hcoinbase]
    rfl
  · rw [if_neg hcoinbase] at hpassphrase ⊢
    exact congrArg some (by rw [← hpassphrase]; rfl)

theorem printable_name (exchange : ExchangeId) : Printable (utf8 (Reflected.name exchange)) := by
  cases exchange <;> exact forall_of_all (by decide)

/-- The fields of the document are storable. -/
theorem storable_toJson (h : a.Sound doubles) :
    ∀ name ∈ [text "exchange_id", text "key", text "api_key", text "api_secret", text "is_active"],
      Storable (a.toJson.field name) := by
  obtain ⟨hexchange, hapiKey, hapiSecret, -, hkey, hisActive⟩ := a.field_toJson
  rw [HasKey] at hkey
  simp only [List.forall_mem_cons, List.not_mem_nil, false_implies, implies_true, and_true,
    hexchange, hkey, hapiKey, hapiSecret, hisActive]
  exact ⟨.string (printable_name a.exchangeId), .string h.keyName, .string h.apiKey,
    .string h.apiSecret, .bool _⟩

end AccountData

/-- **A document of an account comes back as one.** -/
theorem records_stored (hfaithful : Faithful doubles stored) (h : a.Sound doubles) :
    Records doubles (stored a.toJson) a := by
  have hfits : Fits doubles a.toJson := h.fits a.isActive
  obtain ⟨hexchange, hapiKey, hapiSecret, hapiPassphrase, hkey, hisActive⟩ := a.field_toJson
  have hback := fun name hname => hfaithful hfits name (AccountData.storable_toJson h name hname)
  simp only [List.forall_mem_cons, List.not_mem_nil, false_implies, implies_true, and_true] at hback
  obtain ⟨hexchange', hkey', hapiKey', hapiSecret', hisActive'⟩ := hback
  refine ⟨hkey'.trans hkey, ?_, h⟩
  rw [AccountData.create_congr hexchange' hkey' hapiKey' hapiSecret' (fun hread => ?_) hisActive',
    AccountData.create_toJson h]
  rw [hexchange, readEnum_name a.exchangeId.inTable] at hread
  refine hfaithful hfits _ ?_
  rw [hapiPassphrase hread]
  have hprintable := h.apiPassphrase
  rw [if_pos hread] at hprintable
  exact .string hprintable

theorem printable_of_storable (h : Storable x) : Printable (x.toStdString doubles) := by
  cases h with
  | bool b => exact fun c hc => absurd hc List.not_mem_nil
  | string h => exact h

theorem CompleteRequest.sound (h : CompleteRequest doubles data)
    (ha : AccountData.create doubles data = some a) : a.Sound doubles ∧ HasKey a.keyName data := by
  obtain ⟨key, hprintable, hkey⟩ := h.key
  obtain ⟨fresh, hfresh, rfl⟩ := Option.map_eq_some_iff.mp ha
  obtain ⟨hid, hempty⟩ := AccountData.factory_exchangeId hfresh
  have hkeyName : (data.field (text "key")).toStdString doubles = key := by
    rw [hkey]
    rfl
  refine ⟨⟨?_, ?_, printable_of_storable h.apiKey, printable_of_storable h.apiSecret, ?_,
    h.accountFits _ ha⟩, ?_⟩
  · exact Option.isSome_iff_exists.mpr ⟨fresh, by rw [AccountData.fromJson, hid]; exact hfresh⟩
  · exact printable_of_storable (hkey ▸ .string hprintable)
  · simp only [AccountData.fromJson]
    split
    case isTrue hcoinbase => exact printable_of_storable (h.apiPassphrase (hid ▸ hcoinbase))
    case isFalse => exact hempty
  · change HasKey ((data.field (text "key")).toStdString doubles) data
    rwa [hkeyName]

/-- **The document of a request comes back as one.** -/
theorem CompleteRequest.records (hfaithful : Faithful doubles stored)
    (h : CompleteRequest doubles data) (ha : AccountData.create doubles data = some a) :
    Records doubles (stored data) a := by
  obtain ⟨hsound, hkey⟩ := h.sound ha
  have hback := hfaithful h.fits
  have hkey' := hback (text "key") (hkey ▸ .string hsound.keyName)
  refine ⟨hkey'.trans hkey, ?_, hsound⟩
  rw [← ha]
  exact AccountData.create_congr (hback _ h.exchange.1) hkey' (hback _ h.apiKey)
    (hback _ h.apiSecret) (fun hread => hback _ (h.apiPassphrase hread)) (hback _ h.isActive)

end Documents

end TradingEngine
