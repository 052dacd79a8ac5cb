import TradingEngine.Account.Registry

/-!
# Account/Objects — the memory of the process stands for the registry

`all_accounts` has a pointer for each key and the gateways have those of the active accounts, to the
same objects.  A new account extends this (`HasAccounts.extend`), whether it is added or loaded, and
`set_active_account` switches one of them (`HasAccounts.switch`); a refused account leaves an object
that no map has.
-/

namespace TradingEngine

open Ascii JsonItem

/-- **What the memory holds**: an object for each account, and the active ones in their gateways. -/
structure HasAccounts (m : AccountManager) (r : AccountRegistry) : Prop where
  found : ∀ {key a}, r key = some a →
    ∃ ptr, m.allAccounts.lookup key = some ptr ∧ m.objects[ptr]? = some a.object
  absent : ∀ {key}, r key = none → m.allAccounts.lookup key = none
  gateway : ∀ exchange key, (m.accounts exchange).lookup key =
    if ∃ a ∈ r key, a.exchangeId = exchange ∧ a.isActive = true then m.allAccounts.lookup key
    else none
  named : ∀ {key a}, r key = some a → a.keyName = key

section Memory

variable {m m' : AccountManager} {r : AccountRegistry} {a : AccountData} {key : List UInt8}
  {exchange : ExchangeId} {ptr : ℕ} {account : Account}

theorem lookup_inserted (entries : AList fun _ : List UInt8 => ℕ) (name : List UInt8) (ptr : ℕ)
    (key : List UInt8) :
    (entries.insert name ptr).lookup key = if key = name then some ptr else entries.lookup key := by
  split
  case isTrue hkey => rw [hkey, AList.lookup_insert]
  case isFalse hkey => exact AList.lookup_insert_ne hkey

theorem lookup_erased (entries : AList fun _ : List UInt8 => ℕ) (name key : List UInt8) :
    (entries.erase name).lookup key = if key = name then none else entries.lookup key := by
  split
  case isTrue hkey => rw [hkey, AList.lookup_erase]
  case isFalse hkey => exact AList.lookup_erase_ne hkey

/-- One gateway is changed, at one key. -/
theorem lookup_updated {accounts : ExchangeId → AList fun _ : List UInt8 => ℕ}
    {entries : AList fun _ : List UInt8 => ℕ} {name : List UInt8} {found : Option ℕ}
    (hentries : ∀ key, entries.lookup key =
      if key = name then found else (accounts exchange).lookup key)
    (exchange' : ExchangeId) (key : List UInt8) :
    (Function.update accounts exchange entries exchange').lookup key =
      if exchange' = exchange ∧ key = name then found else (accounts exchange').lookup key := by
  by_cases hexchange : exchange' = exchange
  · rw [hexchange, Function.update_self, hentries]
    simp only [true_and]
  · rw [Function.update_of_ne hexchange, if_neg fun heq => hexchange heq.1]

theorem hasAccounts_empty : HasAccounts {} fun _ => none where
  found h := by cases h
  absent _ := AList.lookup_empty _
  gateway exchange key := by
    rw [if_neg (by simp)]
    exact AList.lookup_empty _
  named h := by cases h

/-- An account that no gateway has. -/
theorem HasAccounts.gateway_none (h : HasAccounts m r) (hnone : r key = none)
    (exchange : ExchangeId) :
    (m.accounts exchange).lookup key = none := by
  rw [h.gateway, if_neg (by simp [hnone])]

/-- What is made of the memory when an account is new. -/
structure Extends (m m' : AccountManager) (a : AccountData) : Prop where
  objects : m'.objects = m.objects ++ [a.object]
  allAccounts : ∀ key, m'.allAccounts.lookup key =
    if key = a.keyName then some m.objects.length else m.allAccounts.lookup key
  accounts : ∀ exchange key, (m'.accounts exchange).lookup key =
    if exchange = a.exchangeId ∧ key = a.keyName then
      if a.isActive then some m.objects.length else none
    else (m.accounts exchange).lookup key

/-- Another object does not move those that are there. -/
theorem HasAccounts.found_append (h : HasAccounts m r) {key : List UInt8} {b : AccountData}
    (hb : r key = some b) (account : Account) : ∃ ptr, m.allAccounts.lookup key = some ptr ∧
      (m.objects ++ [account])[ptr]? = some b.object := by
  obtain ⟨ptr, hptr, hobject⟩ := h.found hb
  have hlt : ptr < m.objects.length := (List.getElem?_eq_some_iff.mp hobject).1
  exact ⟨ptr, hptr, (List.getElem?_append_left hlt).trans hobject⟩

/-- **A new account.** -/
theorem HasAccounts.extend (h : HasAccounts m r) (hnew : r a.keyName = none) (hm : Extends m m' a) :
    HasAccounts m' (Function.update r a.keyName (some a)) where
  found {key b} hb := by
    rw [hm.objects, hm.allAccounts]
    by_cases hkey : key = a.keyName
    · subst hkey
      rw [Function.update_self, Option.some_inj] at hb
      subst hb
      exact ⟨_, if_pos rfl, by simp⟩
    · rw [Function.update_of_ne hkey] at hb
      rw [if_neg hkey]
      exact h.found_append hb _
  absent {key} hkey := by
    have hne : key ≠ a.keyName := by
      rintro rfl
      rw [Function.update_self] at hkey
      cases hkey
    rw [hm.allAccounts, if_neg hne]
    rw [Function.update_of_ne hne] at hkey
    exact h.absent hkey
  gateway exchange key := by
    rw [hm.accounts, hm.allAccounts]
    by_cases hkey : key = a.keyName
    · subst hkey
      by_cases hexchange : exchange = a.exchangeId
      · simp [hexchange]
      · rw [if_neg fun heq => hexchange heq.1, h.gateway_none hnew]
        simp [Ne.symm hexchange]
    · rw [if_neg fun heq => hkey heq.2, if_neg hkey, h.gateway, Function.update_of_ne hkey]
  named {key b} hb := by
    by_cases hkey : key = a.keyName
    · subst hkey
      rw [Function.update_self, Option.some_inj] at hb
      rw [hb]
    · rw [Function.update_of_ne hkey] at hb
      exact h.named hb

/-- An object that no map has. -/
theorem HasAccounts.extra (h : HasAccounts m r) (hobjects : m'.objects = m.objects ++ [account])
    (hall : m'.allAccounts = m.allAccounts)
    (haccounts : ∀ exchange key,
      (m'.accounts exchange).lookup key = (m.accounts exchange).lookup key) :
    HasAccounts m' r where
  found hb := by
    rw [hobjects, hall]
    exact h.found_append hb account
  absent hkey := by
    rw [hall]
    exact h.absent hkey
  gateway exchange key := by rw [haccounts, hall, h.gateway]
  named hb := h.named hb

namespace AccountManager

/-- An object that goes into its gateway as it is made. -/
def added (m : AccountManager) (a : AccountData) : AccountManager :=
  (m.construct ⟨a, none⟩).gatewayAdd a.exchangeId m.objects.length

theorem added_eq (m : AccountManager) (a : AccountData) : m.added a =
    { m with
      objects := m.objects ++ [⟨a, a.getOrderEntry⟩]
      accounts := Function.update m.accounts a.exchangeId
        ((m.accounts a.exchangeId).insert a.keyName m.objects.length) } := by
  simp [added, construct, gatewayAdd]

/-- It is taken out again. -/
theorem added_gatewayRemove (m : AccountManager) (a : AccountData) :
    (m.added a).gatewayRemove a.exchangeId m.objects.length =
      { m with
        objects := m.objects ++ [⟨a, none⟩]
        accounts := Function.update m.accounts a.exchangeId
          (((m.accounts a.exchangeId).insert a.keyName m.objects.length).erase a.keyName) } := by
  simp [added_eq, gatewayRemove]

/-- The maps of the gateways and `all_accounts` are apart. -/
theorem emplace_gatewayAdd (m : AccountManager) (key : List UInt8) (ptr : ℕ)
    (exchange : ExchangeId) (ptr' : ℕ) :
    (m.emplace key ptr).gatewayAdd exchange ptr' =
      (m.gatewayAdd exchange ptr').emplace key ptr := by
  by_cases hkey : key ∈ m.allAccounts <;> cases hobject : m.objects[ptr']? <;>
    simp only [emplace, gatewayAdd, hkey, hobject, if_true, if_false]

end AccountManager

/-- **A new account is one more of the registry** when its object, its gateway and `all_accounts`
have it. -/
theorem extends_emplace {entries : AList fun _ : List UInt8 => ℕ}
    (hnone : m.allAccounts.lookup a.keyName = none)
    (hobjects : m'.objects = m.objects ++ [a.object]) (hall : m'.allAccounts = m.allAccounts)
    (haccounts : m'.accounts = Function.update m.accounts a.exchangeId entries)
    (hentries : ∀ key, entries.lookup key =
      if key = a.keyName then if a.isActive then some m.objects.length else none
      else (m.accounts a.exchangeId).lookup key) :
    Extends m (m'.emplace a.keyName m.objects.length) a := by
  have hemplace : m'.emplace a.keyName m.objects.length =
      { m' with allAccounts := m.allAccounts.insert a.keyName m.objects.length } := by
    rw [AccountManager.emplace, hall, if_neg (AList.lookup_eq_none.mp hnone)]
  rw [hemplace]
  refine ⟨hobjects, lookup_inserted _ _ _, fun exchange key => ?_⟩
  rw [haccounts]
  exact lookup_updated hentries exchange key

/-- An account that is added, and removed if it is not active. -/
theorem HasAccounts.extends_register (h : HasAccounts m r) (hnew : r a.keyName = none) :
    Extends m (m.register a (.ok ())) a := by
  have hnone := h.absent hnew
  cases hactive : a.isActive with
  | true =>
    have hregister : m.register a (.ok ()) = (m.added a).emplace a.keyName m.objects.length := by
      rw [AccountManager.register, if_pos hactive]
      rfl
    rw [hregister, AccountManager.added_eq]
    refine extends_emplace hnone ?_ rfl rfl fun key => ?_
    · rw [AccountData.object, if_pos hactive]
    · rw [if_pos hactive]
      exact lookup_inserted _ _ _ key
  | false =>
    have hinactive : ¬ a.isActive = true := by simp [hactive]
    have hregister : m.register a (.ok ()) =
        ((m.added a).gatewayRemove a.exchangeId m.objects.length).emplace a.keyName
          m.objects.length := by
      rw [AccountManager.register, if_neg hinactive]
      rfl
    rw [hregister, AccountManager.added_gatewayRemove]
    refine extends_emplace hnone ?_ rfl rfl fun key => ?_
    · rw [AccountData.object, if_neg hinactive]
    · rw [if_neg hinactive, lookup_erased, lookup_inserted]
      split <;> rfl

/-- An account that is loaded. -/
theorem HasAccounts.extends_loadAccount {doubles : DoubleText} {doc : JsonItem}
    (h : HasAccounts m r) (hnew : r a.keyName = none)
    (hdoc : AccountData.create doubles doc = some a) :
    ∃ m', m.loadAccount doubles doc = some m' ∧ Extends m m' a := by
  have hnone := h.absent hnew
  rw [AccountManager.loadAccount, hdoc, Option.map_some]
  refine ⟨_, rfl, ?_⟩
  split
  case isTrue hactive =>
    rw [AccountManager.emplace_gatewayAdd]
    change Extends m ((m.added a).emplace _ _) a
    rw [AccountManager.added_eq]
    refine extends_emplace hnone ?_ rfl rfl fun key => ?_
    · rw [AccountData.object, if_pos hactive]
    · rw [if_pos hactive]
      exact lookup_inserted _ _ _ key
  case isFalse hinactive =>
    refine extends_emplace hnone ?_ rfl (Function.update_eq_self _ _).symm fun key => ?_
    · rw [AccountData.object, if_neg hinactive]
      rfl
    · rw [if_neg hinactive]
      split
      case isTrue hkey =>
        rw [hkey]
        exact h.gateway_none hnew _
      case isFalse => rfl

/-- An account that is not valid leaves no trace in the maps. -/
theorem HasAccounts.register_error (h : HasAccounts m r) (hnew : r a.keyName = none)
    (error : List UInt8) :
    HasAccounts (m.register a (.error error)) r := by
  have hregister : m.register a (.error error) =
      (m.added a).gatewayRemove a.exchangeId m.objects.length := rfl
  rw [hregister, AccountManager.added_gatewayRemove]
  have hentries : ∀ key, (((m.accounts a.exchangeId).insert a.keyName m.objects.length).erase
      a.keyName).lookup key =
        if key = a.keyName then none else (m.accounts a.exchangeId).lookup key := by
    intro key
    rw [lookup_erased, lookup_inserted]
    split <;> rfl
  refine h.extra rfl rfl fun exchange key => (lookup_updated hentries exchange key).trans ?_
  split
  case isTrue heq => rw [heq.2, h.gateway_none hnew]
  case isFalse => rfl

/-- What is made of the memory when an account is switched on or off. -/
structure Switches (m m' : AccountManager) (ptr : ℕ) (a : AccountData) : Prop where
  objects : m'.objects = m.objects.set ptr a.object
  allAccounts : m'.allAccounts = m.allAccounts
  accounts : ∀ exchange key, (m'.accounts exchange).lookup key =
    if exchange = a.exchangeId ∧ key = a.keyName then if a.isActive then some ptr else none
    else (m.accounts exchange).lookup key

/-- **An account is switched on or off.** -/
theorem HasAccounts.switch {b : AccountData} (h : HasAccounts m r) (hold : r a.keyName = some b)
    (hexchange : b.exchangeId = a.exchangeId) (hptr : m.allAccounts.lookup a.keyName = some ptr)
    (hm : Switches m m' ptr a) : HasAccounts m' (Function.update r a.keyName (some a)) where
  found {key c} hc := by
    rw [hm.objects, hm.allAccounts]
    by_cases hkey : key = a.keyName
    · subst hkey
      rw [Function.update_self, Option.some_inj] at hc
      subst hc
      obtain ⟨ptr', hptr', hobject⟩ := h.found hold
      obtain rfl := Option.some.inj (hptr.symm.trans hptr')
      exact ⟨ptr, hptr, List.getElem?_set_self (List.getElem?_eq_some_iff.mp hobject).1⟩
    · rw [Function.update_of_ne hkey] at hc
      obtain ⟨ptr', hptr', hobject⟩ := h.found hc
      refine ⟨ptr', hptr', ?_⟩
      -- two keys do not share an object: it holds its own key
      obtain ⟨ptr'', hptr'', hobject'⟩ := h.found hold
      obtain rfl := Option.some.inj (hptr.symm.trans hptr'')
      have hne : ptr ≠ ptr' := by
        rintro rfl
        have hsame : c = b := congrArg Account.data (Option.some.inj (hobject.symm.trans hobject'))
        exact hkey ((h.named hc).symm.trans (hsame ▸ h.named hold))
      rwa [List.getElem?_set_ne hne]
  absent {key} hkey := by
    have hne : key ≠ a.keyName := by
      rintro rfl
      rw [Function.update_self] at hkey
      cases hkey
    rw [Function.update_of_ne hne] at hkey
    rw [hm.allAccounts]
    exact h.absent hkey
  gateway exchange key := by
    rw [hm.accounts, hm.allAccounts]
    by_cases hkey : key = a.keyName
    · subst hkey
      by_cases hthere : exchange = a.exchangeId
      · simp [hthere, hptr]
      · rw [if_neg fun heq => hthere heq.1, h.gateway, hold]
        simp [Ne.symm hthere, hexchange]
    · rw [if_neg fun heq => hkey heq.2, h.gateway, Function.update_of_ne hkey]
  named {key c} hc := by
    by_cases hkey : key = a.keyName
    · subst hkey
      rw [Function.update_self, Option.some_inj] at hc
      rw [hc]
    · rw [Function.update_of_ne hkey] at hc
      exact h.named hc

namespace AccountManager

/-- The body of `set_active_account` behind the lookup. -/
def switched (m : AccountManager) (ptr : ℕ) (account : Account) : AccountManager :=
  let changed := { m with objects := m.objects.set ptr account }
  if account.data.isActive then changed.gatewayAdd account.data.exchangeId ptr
  else changed.gatewayRemove account.data.exchangeId ptr

end AccountManager

/-- **The gateway takes the account in, or lets it go.** -/
theorem HasAccounts.switches {b : AccountData} {orderEntry : Option OrderEntry}
    (h : HasAccounts m r) (hold : r a.keyName = some b) (hexchange : b.exchangeId = a.exchangeId)
    (hentry : orderEntry = b.object.orderEntry)
    (hptr : m.allAccounts.lookup a.keyName = some ptr) :
    Switches m (m.switched ptr ⟨a, orderEntry⟩) ptr a := by
  obtain ⟨ptr', hptr', hobject⟩ := h.found hold
  obtain rfl := Option.some.inj (hptr.symm.trans hptr')
  have hlt := (List.getElem?_eq_some_iff.mp hobject).1
  have hthere : (m.objects.set ptr ⟨a, orderEntry⟩)[ptr]? = some ⟨a, orderEntry⟩ :=
    List.getElem?_set_self hlt
  have hgateway : (m.accounts a.exchangeId).lookup a.keyName =
      if b.isActive then some ptr else none := by
    rw [h.gateway, hold, hptr]
    simp [hexchange]
  rw [AccountManager.switched]
  cases hactive : a.isActive with
  | true =>
    simp only [AccountManager.gatewayAdd, hthere, if_true]
    refine ⟨?_, rfl, fun exchange key => ?_⟩
    · rw [List.set_set, AccountData.object, if_pos hactive]
    · rw [hactive, if_pos rfl]
      exact lookup_updated (lookup_inserted _ _ _) exchange key
  | false =>
    simp only [AccountManager.gatewayRemove, hthere, Bool.false_eq_true, if_false]
    have hobject' : a.object = ⟨a, none⟩ := by simp [AccountData.object, hactive]
    split
    case isTrue hmem =>
      refine ⟨?_, rfl, fun exchange key => ?_⟩
      · rw [List.set_set, hobject']
      · rw [hactive, if_neg Bool.false_ne_true]
        exact lookup_updated (lookup_erased _ _) exchange key
    case isFalse hmem =>
      have hoff : (m.accounts a.exchangeId).lookup a.keyName = none := AList.lookup_eq_none.mpr hmem
      refine ⟨?_, rfl, fun exchange key => ?_⟩
      · have hwas : ¬ b.isActive = true := by
          rintro hwas
          rw [hgateway, if_pos hwas] at hoff
          cases hoff
        rw [hobject', hentry, AccountData.object, if_neg hwas]
      · split
        case isTrue heq =>
          rw [heq.1, heq.2, hactive]
          exact hoff
        case isFalse => rfl

end Memory

end TradingEngine
