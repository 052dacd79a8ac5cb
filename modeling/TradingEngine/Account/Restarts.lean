import TradingEngine.Account.Objects

/-!
# Account/Restarts — one registry of accounts, whatever is restarted

The collection has a document for each account of the registry (`KeepsAccounts`), and a start loads
them all (`KeepsAccounts.init`).  So the process and its collection implement the registry
(`implements`), and `Durable` gives the answers of every run (`AccountManager.answers_of_run`), also
behind restarts and behind requests that end the process.
-/

namespace TradingEngine

open Ascii JsonItem

variable (doubles : DoubleText)

/-! ## The collection and the start -/

/-- **What the collection holds**: a document for each account. -/
def KeepsAccounts (db : AccountCollection) (r : AccountRegistry) : Prop :=
  ∃ accounts : List AccountData, List.Forall₂ (Records doubles) db accounts ∧
    (accounts.map (·.keyName)).Nodup ∧ ∀ key a, r key = some a ↔ a ∈ accounts ∧ a.keyName = key

section Collection

variable {doubles stored} {db : AccountCollection} {r r' : AccountRegistry} {m : AccountManager}
  {accounts : List AccountData} {a b : AccountData} {doc : JsonItem} {key : List UInt8}

theorem KeepsAccounts.sound (h : KeepsAccounts doubles db r) (ha : r key = some a) :
    a.Sound doubles := by
  obtain ⟨accounts, hrecords, -, hr⟩ := h
  obtain ⟨i, hi, hget⟩ := List.mem_iff_getElem.mp ((hr key a).mp ha).1
  have hdoc := hrecords.get (hrecords.length_eq ▸ hi) hi
  rw [List.get_eq_getElem, List.get_eq_getElem, hget] at hdoc
  exact hdoc.sound

theorem keepsAccounts_empty : KeepsAccounts doubles [] fun _ => none :=
  ⟨[], .nil, List.nodup_nil, fun key a => by simp⟩

theorem HasKey.eq {name : List UInt8} (h : HasKey name doc) (h' : HasKey key doc) : name = key :=
  JsonScalar.string.inj (JsonItem.value.inj (h.symm.trans h'))

theorem Records.hasKey_iff (h : Records doubles doc a) : HasKey key doc ↔ a.keyName = key :=
  ⟨fun hkey => h.key.eq hkey, fun heq => heq ▸ h.key⟩

/-- The accounts of the documents with a key. -/
theorem map_create_filter (h : List.Forall₂ (Records doubles) db accounts) (key : List UInt8) :
    (db.filter (HasKey key ·)).map (AccountData.create doubles) =
      (accounts.filter (·.keyName = key)).map some := by
  induction h with
  | nil => rfl
  | @cons doc a db accounts hdoc _ ih =>
    have hiff : HasKey key doc ↔ a.keyName = key := hdoc.hasKey_iff
    rw [List.filter_cons, List.filter_cons]
    by_cases hkey : a.keyName = key
    · rw [if_pos (decide_eq_true (hiff.mpr hkey)), if_pos (decide_eq_true hkey), List.map_cons,
        List.map_cons, ih, hdoc.restored]
    · rw [if_neg (by simpa using mt hiff.mp hkey), if_neg (by simpa using hkey), ih]

/-- The accounts with a key are one at most. -/
theorem filter_keyName (hnodup : (accounts.map (·.keyName)).Nodup)
    (hr : ∀ a, r key = some a ↔ a ∈ accounts ∧ a.keyName = key) :
    accounts.filter (·.keyName = key) = (r key).toList := by
  have hlist : (accounts.filter (·.keyName = key)).Nodup := (List.Nodup.of_map _ hnodup).filter _
  have hmem : ∀ b, b ∈ accounts.filter (·.keyName = key) ↔ r key = some b := fun b => by
    rw [List.mem_filter, decide_eq_true_iff, hr]
  cases hkey : r key with
  | none =>
    refine List.eq_nil_iff_forall_not_mem.mpr fun b hb => ?_
    rw [hmem, hkey] at hb
    cases hb
  | some a =>
    refine ((List.perm_ext_iff_of_nodup hlist (List.nodup_singleton a)).mpr fun b =>
      ?_).eq_singleton
    rw [hmem, hkey, List.mem_singleton, Option.some_inj, eq_comm]

/-- **The documents with a key** are restored to the account with this key. -/
theorem KeepsAccounts.map_create (h : KeepsAccounts doubles db r) (key : List UInt8) :
    (db.filter (HasKey key ·)).map (AccountData.create doubles) = (r key).toList.map some := by
  obtain ⟨accounts, hrecords, hnodup, hr⟩ := h
  rw [map_create_filter hrecords, filter_keyName hnodup (hr key)]

theorem KeepsAccounts.findOne_eq_none (h : KeepsAccounts doubles db r) (key : List UInt8) :
    db.findOne key = none ↔ r key = none := by
  have hmap := congrArg List.length (h.map_create key)
  rw [List.length_map, List.length_map] at hmap
  rw [AccountCollection.findOne, List.find?_eq_none, ← List.filter_eq_nil_iff,
    ← List.length_eq_zero_iff, hmap, List.length_eq_zero_iff, Option.toList_eq_nil_iff]

/-- **A document is put in.** -/
theorem KeepsAccounts.insert (h : KeepsAccounts doubles db r) (hnew : r a.keyName = none)
    (hdoc : Records doubles doc a) :
    KeepsAccounts doubles (db ++ [doc]) (Function.update r a.keyName (some a)) := by
  obtain ⟨accounts, hrecords, hnodup, hr⟩ := h
  have hfresh : ∀ b ∈ accounts, b.keyName ≠ a.keyName := fun b hb heq => by
    rw [(hr a.keyName b).mpr ⟨hb, heq⟩] at hnew
    cases hnew
  refine ⟨accounts ++ [a], List.rel_append hrecords (.cons hdoc .nil), ?_, fun key b => ?_⟩
  · rw [List.map_append, List.map_singleton, ← List.concat_eq_append]
    refine hnodup.concat fun hmem => ?_
    obtain ⟨b, hb, heq⟩ := List.mem_map.mp hmem
    exact hfresh b hb heq
  · rw [List.mem_append, List.mem_singleton]
    by_cases hkey : key = a.keyName
    · subst hkey
      rw [Function.update_self, Option.some_inj]
      constructor
      · rintro rfl
        exact ⟨.inr rfl, rfl⟩
      · rintro ⟨hb | rfl, heq⟩
        · exact absurd heq (hfresh b hb)
        · rfl
    · rw [Function.update_of_ne hkey, hr]
      refine and_congr_left fun heq => ⟨.inl, fun hb => hb.resolve_right ?_⟩
      rintro rfl
      exact hkey heq.symm

/-- The document of a key is replaced. -/
theorem records_replaceOne (h : List.Forall₂ (Records doubles) db accounts)
    (hnodup : (accounts.map (·.keyName)).Nodup) (hdoc : Records doubles doc a) :
    List.Forall₂ (Records doubles) (db.replaceOne a.keyName doc)
      (accounts.map fun b => if b.keyName = a.keyName then a else b) := by
  induction h with
  | nil => exact .nil
  | @cons d b db accounts hd hrest ih =>
    obtain ⟨hnot, hrest'⟩ := List.nodup_cons.mp hnodup
    have hiff : HasKey a.keyName d ↔ b.keyName = a.keyName := hd.hasKey_iff
    rw [AccountCollection.replaceOne, List.map_cons]
    by_cases hkey : b.keyName = a.keyName
    · rw [if_pos (hiff.mpr hkey), if_pos hkey]
      have hsame : (accounts.map fun c => if c.keyName = a.keyName then a else c) = accounts := by
        refine (List.map_congr_left fun c hc => if_neg fun heq => ?_).trans (List.map_id _)
        exact hnot (List.mem_map.mpr ⟨c, hc, heq.trans hkey.symm⟩)
      rw [hsame]
      exact .cons hdoc hrest
    · rw [if_neg (mt hiff.mp hkey), if_neg hkey]
      exact .cons hd (ih hrest')

theorem KeepsAccounts.replaceOne (h : KeepsAccounts doubles db r) (hold : r a.keyName = some b)
    (hdoc : Records doubles doc a) :
    KeepsAccounts doubles (db.replaceOne a.keyName doc) (Function.update r a.keyName (some a)) := by
  obtain ⟨accounts, hrecords, hnodup, hr⟩ := h
  refine ⟨_, records_replaceOne hrecords hnodup hdoc, ?_, fun key c => ?_⟩
  · have hsame : (accounts.map fun c => if c.keyName = a.keyName then a else c).map (·.keyName) =
        accounts.map (·.keyName) := by
      rw [List.map_map]
      refine List.map_congr_left fun c _ => ?_
      rw [Function.comp_apply]
      split
      case isTrue heq => exact heq.symm
      case isFalse => rfl
    rwa [hsame]
  · rw [List.mem_map]
    by_cases hkey : key = a.keyName
    · subst hkey
      rw [Function.update_self, Option.some_inj]
      constructor
      · rintro rfl
        obtain ⟨hb, heq⟩ := (hr _ _).mp hold
        exact ⟨⟨b, hb, if_pos heq⟩, rfl⟩
      · rintro ⟨⟨d, -, rfl⟩, heq⟩
        split at heq
        case isTrue hd => rw [if_pos hd]
        case isFalse hd => exact absurd heq hd
    · rw [Function.update_of_ne hkey, hr]
      constructor
      · rintro ⟨hc, heq⟩
        exact ⟨⟨c, hc, if_neg fun h => hkey (heq.symm.trans h)⟩, heq⟩
      · rintro ⟨⟨d, hd, rfl⟩, heq⟩
        split at heq
        case isTrue => exact absurd heq.symm hkey
        case isFalse hne =>
          rw [if_neg hne]
          exact ⟨hd, heq⟩

/-- Some documents are loaded behind others. -/
theorem exists_foldlM_loadAccount (h : List.Forall₂ (Records doubles) db accounts)
    (hnodup : (accounts.map (·.keyName)).Nodup) (hm : HasAccounts m r)
    (hfresh : ∀ a ∈ accounts, r a.keyName = none)
    (hr : ∀ key a, r' key = some a ↔ r key = some a ∨ a ∈ accounts ∧ a.keyName = key) :
    ∃ m', db.foldlM (fun m doc => m.loadAccount doubles doc) m = some m' ∧ HasAccounts m' r' := by
  induction h generalizing m r with
  | nil =>
    have hsame : r' = r := by
      funext key
      refine Option.ext fun a => ?_
      rw [hr]
      simp
    exact ⟨m, rfl, hsame ▸ hm⟩
  | @cons doc a db accounts hdoc hrest ih =>
    obtain ⟨hnot, hnodup'⟩ := List.nodup_cons.mp hnodup
    obtain ⟨hnew, hfresh'⟩ := List.forall_mem_cons.mp hfresh
    obtain ⟨m₁, hload, hextends⟩ := hm.extends_loadAccount hnew hdoc.restored
    have hother : ∀ b ∈ accounts, b.keyName ≠ a.keyName := fun b hb heq =>
      hnot (List.mem_map.mpr ⟨b, hb, heq⟩)
    obtain ⟨m', hloads, hm'⟩ := ih hnodup' (hm.extend hnew hextends)
      (fun b hb => by rw [Function.update_of_ne (hother b hb), hfresh' b hb]) fun key b => by
        rw [hr, List.mem_cons]
        by_cases hkey : key = a.keyName
        · subst hkey
          rw [Function.update_self, Option.some_inj, hnew]
          constructor
          · rintro (hb | ⟨rfl | hb, heq⟩)
            · cases hb
            · exact .inl rfl
            · exact absurd heq (hother b hb)
          · rintro (rfl | ⟨hb, heq⟩)
            · exact .inr ⟨.inl rfl, rfl⟩
            · exact absurd heq (hother b hb)
        · rw [Function.update_of_ne hkey]
          refine or_congr_right (and_congr_left fun heq => or_iff_right ?_)
          rintro rfl
          exact hkey heq.symm
    refine ⟨m', ?_, hm'⟩
    rw [List.foldlM_cons, hload]
    exact hloads

/-- **A start finds the registry again.** -/
theorem KeepsAccounts.init (h : KeepsAccounts doubles db r) :
    ∃ m, AccountManager.init doubles db = some m ∧ HasAccounts m r := by
  obtain ⟨accounts, hrecords, hnodup, hr⟩ := h
  exact exists_foldlM_loadAccount hrecords hnodup hasAccounts_empty (fun _ _ => rfl) fun key a => by
    rw [hr]
    simp

end Collection

/-! ## The process is the registry -/

section Process

variable {doubles stored} {db : AccountCollection} {r : AccountRegistry} {m : AccountManager}
  {a : AccountData} {key : List UInt8} {data : JsonItem} {balances : Option JsonItem}

theorem HasAccounts.getAccountByKey (h : HasAccounts m r) (key : List UInt8) :
    m.getAccountByKey key = (r key).map (·.object) := by
  rw [AccountManager.getAccountByKey]
  cases hkey : r key with
  | none => rw [h.absent hkey, Option.bind_none, Option.map_none]
  | some a =>
    obtain ⟨ptr, hptr, hobject⟩ := h.found hkey
    rw [hptr, Option.bind_some, hobject, Option.map_some]

theorem HasAccounts.gatewayAccount (h : HasAccounts m r) (exchange : ExchangeId)
    (key : List UInt8) :
    m.gatewayAccount exchange key =
      ((r key).filter fun a => a.exchangeId = exchange ∧ a.isActive).map (·.object) := by
  rw [AccountManager.gatewayAccount, h.gateway]
  cases hkey : r key with
  | none => simp
  | some a =>
    have hfound := h.getAccountByKey key
    rw [AccountManager.getAccountByKey, hkey] at hfound
    by_cases hthere : a.exchangeId = exchange ∧ a.isActive = true
    · simp [hthere, hfound]
    · rw [if_neg (by simpa using hthere), Option.bind_none, Option.filter_some,
        if_neg (by simpa using hthere), Option.map_none]

/-- The accounts of `all_accounts`. -/
theorem HasAccounts.exists_accounts (h : HasAccounts m r) :
    ∃ accounts : List AccountData,
      m.getActiveAccounts.map (·.data) = accounts.filter (·.isActive) ∧
        (accounts.map (·.keyName)).Nodup ∧
        ∀ key a, r key = some a ↔ a ∈ accounts ∧ a.keyName = key := by
  have hentry : ∀ entry ∈ m.allAccounts.entries,
      m.objects[entry.2]? = (r entry.1).map (·.object) ∧
        (r entry.1).map (·.keyName) = some entry.1 := by
    intro entry hentry
    have hlookup : m.allAccounts.lookup entry.1 = some entry.2 := AList.mem_lookup_iff.mpr hentry
    cases hkey : r entry.1 with
    | none =>
      rw [h.absent hkey] at hlookup
      cases hlookup
    | some a =>
      obtain ⟨ptr, hptr, hobject⟩ := h.found hkey
      obtain rfl := Option.some.inj (hlookup.symm.trans hptr)
      exact ⟨hobject, congrArg some (h.named hkey)⟩
  refine ⟨m.allAccounts.entries.filterMap fun entry => r entry.1, ?_, ?_, fun key a => ?_⟩
  · have hobjects : (m.allAccounts.entries.filterMap fun entry => m.objects[entry.2]?) =
        (m.allAccounts.entries.filterMap fun entry => r entry.1).map (·.object) := by
      rw [List.map_filterMap]
      exact List.filterMap_congr fun entry hmem => (hentry entry hmem).1
    rw [AccountManager.getActiveAccounts, hobjects, List.filter_map, List.map_map]
    exact List.map_id _
  · have hkeys : (m.allAccounts.entries.filterMap fun entry => r entry.1).map (·.keyName) =
        m.allAccounts.entries.keys := by
      rw [List.map_filterMap, List.keys, ← List.filterMap_eq_map]
      exact List.filterMap_congr fun entry hmem => (hentry entry hmem).2
    rw [hkeys]
    exact m.allAccounts.nodupKeys
  · rw [List.mem_filterMap]
    constructor
    · intro ha
      obtain ⟨ptr, hptr, -⟩ := h.found ha
      exact ⟨⟨⟨key, ptr⟩, AList.mem_lookup_iff.mp hptr, ha⟩, h.named ha⟩
    · rintro ⟨⟨entry, -, ha⟩, rfl⟩
      rwa [h.named ha]

theorem HasAccounts.getActiveAccounts (h : HasAccounts m r) (key : List UInt8) :
    (m.getActiveAccounts.map (·.data)).filter (·.keyName = key) =
      ((r key).filter (·.isActive)).toList := by
  obtain ⟨accounts, haccounts, hnodup, hr⟩ := h.exists_accounts
  rw [haccounts, List.filter_comm, filter_keyName hnodup (hr key)]
  cases r key with
  | none => rfl
  | some a =>
    rw [Option.toList_some, Option.filter_some, List.filter_singleton]
    split <;> simp_all

/-- **The documents of a key, as accounts.** -/
theorem KeepsAccounts.loadAllAccounts (h : KeepsAccounts doubles db r) (key : List UInt8) :
    (db.filter (HasKey key ·)).filterMap (AccountData.create doubles) = (r key).toList := by
  have hmap := congrArg (List.filterMap id) (h.map_create key)
  rw [List.filterMap_map, List.filterMap_map, Function.id_comp] at hmap
  exact hmap.trans List.filterMap_some

/-- A request has the registry's answer, and what is left stands for the registry. -/
structure ServedAs {ο : Type} (doubles : DoubleText)
    (served : Option (AccountManager × ο) × AccountCollection)
    (asked : Option ο × AccountRegistry) :
    Prop where
  answer : served.1.map (·.2) = asked.1
  mirrors : ∀ answer ∈ served.1, HasAccounts answer.1 asked.2
  keeps : KeepsAccounts doubles served.2 asked.2

theorem ServedAs.map {ο π : Type} {served : Option (AccountManager × ο) × AccountCollection}
    {asked : Option ο × AccountRegistry} (f : ο → π) (h : ServedAs doubles served asked) :
    ServedAs doubles (served.1.map fun answer => (answer.1, f answer.2), served.2)
      (asked.1.map f, asked.2) where
  answer := by
    rw [← h.answer, Option.map_map, Option.map_map]
    rfl
  mirrors answer hanswer := by
    obtain ⟨given, hgiven, rfl⟩ := Option.map_eq_some_iff.mp hanswer
    exact h.mirrors given hgiven
  keeps := h.keeps

/-- A request that is only answered. -/
theorem ServedAs.read {ο : Type} {answer answer' : ο} (hm : HasAccounts m r)
    (hdb : KeepsAccounts doubles db r)
    (h : answer = answer') : ServedAs doubles (some (m, answer), db) (some answer', r) :=
  ⟨congrArg some h, fun _ hserved => Option.some.inj hserved ▸ hm, hdb⟩

/-- A request that ends the process. -/
theorem ServedAs.ended {ο : Type} (hdb : KeepsAccounts doubles db r) :
    ServedAs (ο := ο) doubles (none, db) (none, r) :=
  ⟨rfl, fun _ hserved => absurd hserved (Option.not_mem_none _), hdb⟩

/-- **`add_account` does what the registry does.** -/
theorem HasAccounts.addAccount (hm : HasAccounts m r) (hdb : KeepsAccounts doubles db r)
    (hfaithful : Faithful doubles stored) (hdata : CompleteRequest doubles data) :
    ServedAs doubles (m.addAccount doubles stored db data balances)
      (r.addAccount doubles data balances) := by
  rw [AccountManager.addAccount, AccountRegistry.addAccount]
  have hfind := hdb.findOne_eq_none ((data.field (text "key")).toStdString doubles)
  cases hkey : r ((data.field (text "key")).toStdString doubles) with
  | some b =>
    rw [hkey] at hfind
    obtain ⟨doc, hdoc⟩ := Option.ne_none_iff_exists'.mp (mt hfind.mp (Option.some_ne_none b))
    simp only [hdoc]
    exact .read hm hdb rfl
  | none =>
    simp only [hfind.mpr hkey]
    cases hcreate : AccountData.create doubles data with
    | none => exact .ended hdb
    | some a =>
      have hrecords := hdata.records hfaithful hcreate
      have hname : (data.field (text "key")).toStdString doubles = a.keyName := by
        rw [(hdata.sound hcreate).2]
        rfl
      rw [hname] at hkey
      cases hvalid : a.validate doubles balances with
      | none =>
        simp only [hvalid]
        exact .ended hdb
      | some result =>
        cases result with
        | error error =>
          simp only [hvalid]
          exact .read (hm.register_error hkey error) hdb rfl
        | ok u =>
          simp only [hvalid, hname]
          exact .read (hm.extend hkey (hm.extends_register hkey)) (hdb.insert hkey hrecords) rfl

/-- **`set_active_account` does what the registry does.** -/
theorem HasAccounts.setActiveAccount (hm : HasAccounts m r) (hdb : KeepsAccounts doubles db r)
    (hfaithful : Faithful doubles stored) (key : List UInt8) (isActive : Bool) :
    ServedAs doubles (m.setActiveAccount stored db key isActive)
      (r.setActiveAccount key isActive) := by
  rw [AccountManager.setActiveAccount, AccountRegistry.setActiveAccount]
  cases hkey : r key with
  | none =>
    simp only [hm.absent hkey]
    exact .read hm hdb rfl
  | some b =>
    obtain ⟨ptr, hptr, hobject⟩ := hm.found hkey
    simp only [hptr, hobject]
    obtain rfl : b.keyName = key := hm.named hkey
    let a : AccountData := { b with isActive := isActive }
    have hswitch : Switches m (m.switched ptr ⟨a, b.object.orderEntry⟩) ptr a :=
      hm.switches hkey rfl rfl hptr
    have hrecords : Records doubles (stored a.toJson) a :=
      records_stored hfaithful ((hdb.sound hkey).setActive isActive)
    exact .read (hm.switch (a := a) hkey rfl hptr hswitch)
      (KeepsAccounts.replaceOne (a := a) hdb hkey hrecords) rfl

/-- **The process and its collection implement the registry.** -/
theorem implements (hfaithful : Faithful doubles stored) :
    Durable.Implements (AccountManager.process doubles stored) (AccountRegistry.spec doubles)
      (fun _ e => e.Legal doubles) HasAccounts (KeepsAccounts doubles) where
  starts h := h.init
  serves {m db r e} hm hdb hlegal := by
    suffices h : ServedAs doubles ((AccountManager.process doubles stored).serve m db e)
        ((AccountRegistry.spec doubles).serve r e) from ⟨h.answer, h.mirrors, h.keeps⟩
    cases e with
    | addAccount data balances => exact (hm.addAccount hdb hfaithful hlegal).map _
    | setActiveAccount key isActive => exact (hm.setActiveAccount hdb hfaithful key isActive).map _
    | getAccountByKey key => exact .read hm hdb (congrArg _ (hm.getAccountByKey key))
    | gatewayAccount exchange key =>
      exact .read hm hdb (congrArg _ (hm.gatewayAccount exchange key))
    | getActiveAccounts key => exact .read hm hdb (congrArg _ (hm.getActiveAccounts key))
    | loadAllAccounts key => exact .read hm hdb (congrArg _ (hdb.loadAllAccounts key))

variable {es : List (Durable.Event AccountRequest)}

/-- Nothing runs yet. -/
theorem agrees_start (hdb : KeepsAccounts doubles db r) :
    Durable.Agrees HasAccounts (KeepsAccounts doubles) ⟨none, db⟩ ⟨false, r⟩ :=
  ⟨rfl, fun m hm => absurd hm (Option.not_mem_none m), hdb⟩

/-- **The accounts are one registry, whatever is restarted.**  A process that is started again at
any place, also behind requests that ended it, answers as the map answers that has no restarts. -/
theorem AccountManager.answers_of_run (hfaithful : Faithful doubles stored)
    (hdb : KeepsAccounts doubles db r)
    (hes : ∀ e ∈ es, e.Satisfies (AccountRequest.Legal doubles)) :
    Run.trace (AccountManager.process doubles stored).step ⟨none, db⟩ es =
      Run.trace (AccountRegistry.spec doubles).step ⟨false, r⟩ es :=
  (implements hfaithful).trace_eq (agrees_start hdb) (Durable.Spec.along_of_forall hes _)

/-- **Restarts cannot be told from the answers** while every request is answered. -/
theorem AccountManager.answers_of_answered_run (hfaithful : Faithful doubles stored)
    (hdb : KeepsAccounts doubles db r) (hes : ∀ e ∈ es, e.Satisfies (AccountRequest.Legal doubles))
    (hanswered : Run.Along (Run.next (AccountRegistry.spec doubles).step)
      (Durable.Spec.Legally (AccountRegistry.spec doubles).Answered) ⟨true, r⟩ es) :
    Run.trace (AccountManager.process doubles stored).step ⟨none, db⟩ (.restart :: es) =
      (AccountRegistry.spec doubles).answers r (Durable.requests es) := by
  have hlegal : ∀ e ∈ .restart :: es, e.Satisfies (AccountRequest.Legal doubles) :=
    List.forall_mem_cons.mpr ⟨trivial, hes⟩
  rw [answers_of_run hfaithful hdb hlegal]
  change Run.trace (AccountRegistry.spec doubles).step ⟨true, r⟩ es = _
  exact Durable.Spec.trace_requests rfl hanswered

/-- What a process and its collection have in common with themselves. -/
structure Consistent (doubles : DoubleText) (m : AccountManager) (db : AccountCollection) :
    Prop where
  named : ∀ {key account}, m.getAccountByKey key = some account → account.data.keyName = key
  shared : ∀ {exchange key ptr}, (m.accounts exchange).lookup key = some ptr →
    m.allAccounts.lookup key = some ptr
  gateway : ∀ exchange key account, m.gatewayAccount exchange key = some account ↔
    m.getAccountByKey key = some account ∧ account.data.exchangeId = exchange ∧
      account.data.isActive = true
  orderEntry : ∀ {key account}, m.getAccountByKey key = some account →
    account.orderEntry = if account.data.isActive then account.data.getOrderEntry else none
  documents : ∀ key, (db.filter (HasKey key ·)).map (AccountData.create doubles) =
    ((m.getAccountByKey key).map (·.data)).toList.map some
  restart : ∃ m', AccountManager.init doubles db = some m' ∧
    ∀ key, m'.getAccountByKey key = m.getAccountByKey key

theorem HasAccounts.consistent (hm : HasAccounts m r) (hdb : KeepsAccounts doubles db r) :
    Consistent doubles m db where
  named {key account} h := by
    rw [hm.getAccountByKey] at h
    obtain ⟨a, ha, rfl⟩ := Option.map_eq_some_iff.mp h
    exact hm.named ha
  shared {exchange key ptr} h := by
    rw [hm.gateway] at h
    split at h
    · exact h
    · cases h
  gateway exchange key account := by
    rw [hm.gatewayAccount, hm.getAccountByKey]
    cases r key with
    | none => simp
    | some a =>
      simp only [Option.map_some, Option.some_inj]
      constructor
      · intro h
        obtain ⟨b, hb, rfl⟩ := Option.map_eq_some_iff.mp h
        obtain ⟨heq, hthere⟩ := Option.filter_eq_some_iff.mp hb
        obtain rfl := Option.some.inj heq
        exact ⟨rfl, of_decide_eq_true hthere⟩
      · rintro ⟨rfl, hthere⟩
        have hkept : Option.filter (fun a : AccountData => a.exchangeId = exchange ∧ a.isActive)
            (some a) = some a := Option.filter_eq_some_iff.mpr ⟨rfl, decide_eq_true hthere⟩
        rw [hkept]
        rfl
  orderEntry {key account} h := by
    rw [hm.getAccountByKey] at h
    obtain ⟨a, -, rfl⟩ := Option.map_eq_some_iff.mp h
    rfl
  documents key := by
    rw [hdb.map_create, hm.getAccountByKey, Option.map_map]
    cases r key <;> rfl
  restart := by
    obtain ⟨m', hinit, hm'⟩ := hdb.init
    exact ⟨m', hinit, fun key => by rw [hm'.getAccountByKey, hm.getAccountByKey]⟩

/-- **Whenever the process runs, its maps, its gateways and its collection agree**: the gateways
have the active accounts and share their objects, no account that is not active has an order entry,
and a restart would bring back the same. -/
theorem AccountManager.consistent_of_run (hfaithful : Faithful doubles stored)
    (hdb : KeepsAccounts doubles db r)
    (hes : ∀ e ∈ es, e.Satisfies (AccountRequest.Legal doubles)) :
    ∀ m ∈ (Run.exec (Run.next (AccountManager.process doubles stored).step) ⟨none, db⟩ es).memory,
      Consistent doubles m
        (Run.exec (Run.next (AccountManager.process doubles stored).step) ⟨none, db⟩ es).store := by
  intro m hm
  have hagrees := (implements hfaithful).agrees_of_run (agrees_start hdb)
    (Durable.Spec.along_of_forall hes _)
  exact (hagrees.stands m hm).consistent hagrees.keeps

/-- The document of an account is a request for it. -/
theorem AccountData.Sound.completeRequest (h : a.Sound doubles)
    (hexchange : a.exchangeId ≠ .totalExchanges) : CompleteRequest doubles a.toJson := by
  have hcreate := AccountData.create_toJson h
  obtain ⟨hid, -, -, hapiPassphrase, hkey, -⟩ := a.field_toJson
  have hstorable := AccountData.storable_toJson h
  have hread : readEnum doubles (a.toJson.field (text "exchange_id")) = a.exchangeId := by
    rw [hid, readEnum_name a.exchangeId.inTable]
  refine ⟨h.fits a.isActive, ⟨hstorable _ (by simp), ?_⟩, ⟨_, h.keyName, hkey⟩,
    hstorable _ (by simp), hstorable _ (by simp), fun hcoinbase => ?_, hstorable _ (by simp),
    fun b hb isActive => ?_⟩
  · rwa [hread]
  · rw [hread] at hcoinbase
    rw [hapiPassphrase hcoinbase]
    have hprintable := h.apiPassphrase
    rw [if_pos hcoinbase] at hprintable
    exact .string hprintable
  · obtain rfl := Option.some.inj (hcreate.symm.trans hb)
    exact h.fits isActive

/-- An account of the test exchange. -/
def testAccount : AccountData where
  exchangeId := .binanceTestnet
  keyName := text "K"
  apiKey := text "a"
  apiSecret := text "s"

/-- Doubles are not written here. -/
def noDoubleTexts : DoubleText := ⟨fun _ => [], fun _ => none⟩

theorem testAccount_sound : testAccount.Sound noDoubleTexts := by
  refine ⟨rfl, forall_of_all (by decide), forall_of_all (by decide), forall_of_all (by decide), rfl,
    fun isActive => ?_⟩
  cases isActive <;> rw [Fits, AccountData.toJson] <;> repeat rw [text_ofList]
  · decide +kernel
  · decide +kernel

/-- It is added, switched off, and found so behind a restart; no gateway has it. -/
def testRun : List (Durable.Event AccountRequest) :=
  [.restart, .request (.addAccount testAccount.toJson (some (.object false [] []))),
    .request (.setActiveAccount (text "K") false), .restart,
    .request (.getAccountByKey (text "K")),
    .request (.gatewayAccount .binanceTestnet (text "K"))]

theorem testRun_legal : ∀ e ∈ testRun, e.Satisfies (AccountRequest.Legal noDoubleTexts) := by
  have hrequest := testAccount_sound.completeRequest (by decide)
  simp only [testRun, List.forall_mem_cons, List.not_mem_nil, false_implies, implies_true, and_true]
  exact ⟨trivial, hrequest, trivial, trivial, trivial, trivial⟩

theorem testRun_answers :
    Run.trace (AccountManager.process noDoubleTexts withObjectId).step ⟨none, []⟩ testRun =
      Run.trace (AccountRegistry.spec noDoubleTexts).step ⟨false, fun _ => none⟩ testRun :=
  AccountManager.answers_of_run (faithful_withObjectId _) keepsAccounts_empty testRun_legal

/-- Behind the restart it is in the collection, and no gateway has it. -/
theorem testRun_consistent :
    ∃ m ∈ (Run.exec (Run.next (AccountManager.process noDoubleTexts withObjectId).step) ⟨none, []⟩
        (testRun.take 4)).memory,
      Consistent noDoubleTexts m
        (Run.exec (Run.next (AccountManager.process noDoubleTexts withObjectId).step) ⟨none, []⟩
          (testRun.take 4)).store := by
  have hlegal : ∀ e ∈ testRun.take 4, e.Satisfies (AccountRequest.Legal noDoubleTexts) :=
    fun e he => testRun_legal e (List.mem_of_mem_take he)
  have hagrees := (implements (faithful_withObjectId noDoubleTexts)).agrees_of_run
    (agrees_start keepsAccounts_empty) (Durable.Spec.along_of_forall hlegal _)
  obtain ⟨m, hm⟩ := Option.isSome_iff_exists.mp (hagrees.up.symm.trans rfl)
  exact ⟨m, hm, AccountManager.consistent_of_run (faithful_withObjectId _) keepsAccounts_empty
    hlegal m hm⟩

end Process

end TradingEngine
