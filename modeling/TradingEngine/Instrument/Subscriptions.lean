import Mathlib.Data.Finset.Image
import TradingEngine.Http.ServerRequest
import TradingEngine.Machinery.WriteBehind
import TradingEngine.Order.JsonForm

/-!
# Instrument/Subscriptions — the subscribed instruments, and the collection they are written to

`Instrument` keeps a `SavableObject` for each subscribed instrument and answers from them.  The
collection `subscribed_instruments` is written behind its back: a new object posts two tasks, one
that inserts an empty document and one that fills it, and an object that is removed posts one.

What the memory is for is a set of instruments: `Stands.servedAs` — every request has the answer
and the effect it has on the set.
-/

namespace TradingEngine

open Ascii

/-! ## The registry -/

/-- The type `get_instrument_by_symbol` looks for. -/
def InstrumentType.ofSymbol (symbol : String) : InstrumentType :=
  if (find (text "-PERPETUAL") (utf8 symbol)).isSome then .perpetual else .spot

/-- `get_instrument_by_symbol`; it throws where there is none. -/
def InstrumentRegistry.bySymbol (registry : InstrumentRegistry) (exchangeId : ExchangeId)
    (symbol : String) : Option Instrument :=
  registry.instruments.find? fun i =>
    i.exchangeId = exchangeId ∧ i.instrumentType = .ofSymbol symbol ∧ i.symbol = symbol

/-! ## The collection and the tasks that write it -/

/-- The collection `subscribed_instruments` and the data models of the process, by their
addresses. -/
structure SubscriptionStore where
  documents : AList fun _ : DocId => JsonItem := ∅
  nextId : DocId := 0
  models : ℕ → DataModel := fun _ => {}

/-- A task of a `SavableObject<Instrument>`. -/
inductive SaveTask
  | init
  | update (object : Instrument)
  | remove

namespace SubscriptionStore

variable (stored : JsonItem → JsonItem) (store : SubscriptionStore)

/-- `insert_one`; `stored` makes of a document what a later query finds. -/
def insertOne (doc : JsonItem) : SubscriptionStore :=
  { store with
    documents := store.documents.insert store.nextId (stored doc)
    nextId := store.nextId + 1 }

def replaceOne (id : DocId) (doc : JsonItem) : SubscriptionStore :=
  if id ∈ store.documents then
    { store with documents := store.documents.insert id (stored doc) }
  else store

def deleteOne (id : DocId) : SubscriptionStore :=
  { store with documents := store.documents.erase id }

/-- The data model at an address becomes `m`. -/
def setModel (address : ℕ) (m : DataModel) : SubscriptionStore :=
  { store with models := Function.update store.models address m }

/-- `save_to_DB`. -/
def saveToDb (address : ℕ) (doc : JsonItem) : SubscriptionStore :=
  match store.models address with
  | ⟨none, checked⟩ => (store.insertOne stored doc).setModel address ⟨some store.nextId, checked⟩
  | ⟨some id, false⟩ =>
    if id ∈ store.documents then (store.replaceOne stored id doc).setModel address ⟨some id, true⟩
    else (store.insertOne stored doc).setModel address ⟨some store.nextId, true⟩
  | ⟨some id, true⟩ => store.replaceOne stored id doc

/-- `Json({})`. -/
def emptyDocument : JsonItem := JsonItem.ofPairs []

/-- A task on the data model at an address.  The exception of a removal without a document ends the
process, as does a `Json` that has no meaning. -/
def write : ℕ × SaveTask → Option SubscriptionStore
  | (address, .init) =>
    -- the assignment of the new model copies its id, not `m_has_checked_available`
    some ((store.insertOne stored emptyDocument).setModel address
      { store.models address with id := some store.nextId })
  | (address, .update object) => object.toItem.map (store.saveToDb stored address)
  | (address, .remove) =>
    (store.models address).id.map fun id =>
      (store.deleteOne id).setModel address { store.models address with id := none }

end SubscriptionStore

/-! ## The process -/

/-- A key of the cache: the id of a loaded document, or the exchange and the symbol. -/
inductive SubscriptionKey
  | document (id : DocId)
  | instrument (exchangeId : ExchangeId) (symbol : String)
  deriving DecidableEq

/-- An entry of the cache: a `SavableObject<Instrument>` with the address of its data model. -/
structure SubscribedInstrument where
  key : SubscriptionKey
  object : Instrument
  address : ℕ
  deriving DecidableEq

/-- `cache_subscribed_instruments`, and the addresses in use. -/
structure Subscriptions where
  cache : List SubscribedInstrument := []
  nextAddress : ℕ := 0

inductive SubscriptionRequest
  | subscribe (exchangeId : ExchangeId) (symbol : String)
  | unsubscribe (exchangeId : ExchangeId) (symbol : String)
  | list

/-- The result of a request; the instruments of `get_subscribed_instruments` come in any order. -/
inductive SubscriptionAnswer
  | done (ok : Bool)
  | listed (instruments : Finset Instrument)
  | throws
  deriving DecidableEq

/-- The instrument of the entry has this exchange and symbol. -/
def SubscribedInstrument.Matches (s : SubscribedInstrument) (exchangeId : ExchangeId)
    (symbol : String) : Prop :=
  s.object.symbol = symbol ∧ s.object.exchangeId = exchangeId

instance (s : SubscribedInstrument) (exchangeId : ExchangeId) (symbol : String) :
    Decidable (s.Matches exchangeId symbol) := inferInstanceAs (Decidable (_ ∧ _))

namespace Subscriptions

variable (doubles : DoubleText) (registry : InstrumentRegistry) (stored : JsonItem → JsonItem)

/-- What is posted. -/
abbrev Posted := ℕ × SaveTask

/-- `emplace`: a key that is there keeps its entry. -/
def emplace (cache : List SubscribedInstrument) (s : SubscribedInstrument) :
    List SubscribedInstrument :=
  if ∃ t ∈ cache, t.key = s.key then cache else cache ++ [s]

/-- `add_subscribed_instrument`. -/
def addSubscribedInstrument (m : Subscriptions) (exchangeId : ExchangeId) (symbol : String) :
    Subscriptions × Bool × List Posted :=
  if ∃ s ∈ m.cache, s.Matches exchangeId symbol then (m, false, [])
  else
    match registry.bySymbol exchangeId symbol with
    | none => (m, false, [])
    | some object =>
      let address := m.nextAddress
      ({ cache := emplace m.cache ⟨.instrument object.exchangeId symbol, object, address⟩
         nextAddress := address + 1 },
        true, [(address, .init), (address, .update object)])

/-- `remove_subscribed_instrument`. -/
def removeSubscribedInstrument (m : Subscriptions) (exchangeId : ExchangeId) (symbol : String) :
    Subscriptions × Bool × List Posted :=
  match m.cache.find? (·.Matches exchangeId symbol) with
  | none => (m, false, [])
  | some s =>
    ({ m with cache := m.cache.eraseP (·.Matches exchangeId symbol) }, true, [(s.address, .remove)])

/-- The instrument of an entry. -/
def lookUp (s : SubscribedInstrument) : Option Instrument :=
  registry.bySymbol s.object.exchangeId s.object.symbol

/-- `get_subscribed_instruments`. -/
def getSubscribedInstruments (m : Subscriptions) : SubscriptionAnswer :=
  if ∀ s ∈ m.cache, (lookUp registry s).isSome then
    .listed (m.cache.filterMap (lookUp registry)).toFinset
  else .throws

def serve (m : Subscriptions) :
    SubscriptionRequest → Subscriptions × SubscriptionAnswer × List Posted
  | .subscribe exchangeId symbol =>
    let added := m.addSubscribedInstrument registry exchangeId symbol
    (added.1, .done added.2.1, added.2.2)
  | .unsubscribe exchangeId symbol =>
    let removed := m.removeSubscribedInstrument exchangeId symbol
    (removed.1, .done removed.2.1, removed.2.2)
  | .list => (m, m.getSubscribedInstruments registry, [])

/-- The entry that is loaded from a document; its data model gets the address of the document. -/
def loadEntry (document : Sigma fun _ : DocId => JsonItem) : Option SubscribedInstrument :=
  (Instrument.ofItem doubles document.2).bind fun object =>
    let s : SubscribedInstrument := ⟨.document document.1, object, document.1⟩
    if (lookUp registry s).isSome then some s else none

/-- `load_objects_map`, and the `get_subscribed_instruments` of `GatewayManager::init`, whose
exception ends the program. -/
def start (store : SubscriptionStore) : Option (Subscriptions × SubscriptionStore) :=
  (store.documents.entries.mapM (loadEntry doubles registry)).map fun cache =>
    ({ cache := cache, nextAddress := store.nextId },
      { store with models := fun id => if id ∈ store.documents then { id := some id } else {} })

/-- **The process.** -/
def process : WriteBehind.Process SubscriptionStore Subscriptions Posted SubscriptionRequest
    SubscriptionAnswer where
  start := start doubles registry
  serve := serve registry
  write := SubscriptionStore.write stored

/-! ## What it is for -/

/-- **The specification**: a set of instruments of the registry.  Between the two tasks of a
subscription there is no start. -/
def spec : WriteBehind.Spec (Finset Instrument) SubscriptionRequest SubscriptionAnswer where
  serve a
    | .subscribe exchangeId symbol =>
      match registry.bySymbol exchangeId symbol with
      | none => (a, .done false)
      | some i => if i ∈ a then (a, .done false) else (insert i a, .done true)
    | .unsubscribe exchangeId symbol =>
      match registry.bySymbol exchangeId symbol with
      | none => (a, .done false)
      | some i => if i ∈ a then (a.erase i, .done true) else (a, .done false)
    | .list => (a, .listed a)
  writes a
    | .subscribe exchangeId symbol =>
      match registry.bySymbol exchangeId symbol with
      | none => 0
      | some i => if i ∈ a then 0 else 2
    | .unsubscribe exchangeId symbol =>
      match registry.bySymbol exchangeId symbol with
      | none => 0
      | some i => if i ∈ a then 1 else 0
    | .list => 0
  cut _ _ _ := none

end Subscriptions

/-! ## Looking up -/

section Registry

variable {registry : InstrumentRegistry} {exchangeId : ExchangeId} {symbol : String}
  {i : Instrument}

theorem bySymbol_some (h : registry.bySymbol exchangeId symbol = some i) :
    i ∈ registry.instruments ∧ i.exchangeId = exchangeId ∧ i.symbol = symbol := by
  rw [InstrumentRegistry.bySymbol] at h
  have hfound := List.find?_some h
  rw [decide_eq_true_iff] at hfound
  exact ⟨List.mem_of_find?_eq_some h, hfound.1, hfound.2.2⟩

end Registry

namespace Subscriptions

variable {registry : InstrumentRegistry} {m : Subscriptions} {a : Finset Instrument}
  {i : Instrument} {s : SubscribedInstrument} {exchangeId : ExchangeId} {symbol : String}

/-! ## The memory -/

/-- The instruments of a cache. -/
def instruments (registry : InstrumentRegistry) (cache : List SubscribedInstrument) :
    List Instrument := cache.filterMap (lookUp registry)

/-- **The memory stands for a set of instruments**: its entries are of the instruments of the set,
one for each, and an entry that was subscribed has the key of its instrument. -/
structure Stands (registry : InstrumentRegistry) (m : Subscriptions) (a : Finset Instrument) :
    Prop where
  registered : ∀ s ∈ m.cache, (lookUp registry s).isSome
  nodup : (instruments registry m.cache).Nodup
  instruments : (instruments registry m.cache).toFinset = a
  keys : ∀ s ∈ m.cache, ∀ exchangeId symbol, s.key = .instrument exchangeId symbol →
    s.Matches exchangeId symbol

theorem lookUp_of_matches (h : s.Matches exchangeId symbol) :
    lookUp registry s = registry.bySymbol exchangeId symbol := by
  rw [lookUp, h.1, h.2]

theorem matches_of_lookUp (h : lookUp registry s = some i)
    (hi : registry.bySymbol exchangeId symbol = some i) : s.Matches exchangeId symbol := by
  obtain ⟨-, hexchange, hsymbol⟩ := bySymbol_some h
  obtain ⟨-, hexchange', hsymbol'⟩ := bySymbol_some hi
  exact ⟨hsymbol.symm.trans hsymbol', hexchange.symm.trans hexchange'⟩

/-- **What is removed** is the first entry that matches. -/
theorem remove_there (h : ∃ s ∈ m.cache, s.Matches exchangeId symbol) :
    ∃ s pre post, s.Matches exchangeId symbol ∧ m.cache = pre ++ s :: post ∧
      m.removeSubscribedInstrument exchangeId symbol =
        ({ m with cache := pre ++ post }, true, [(s.address, .remove)]) := by
  obtain ⟨t, ht, hmatches⟩ := h
  obtain ⟨s, pre, post, hpre, hs, hcache, herase⟩ := List.exists_of_eraseP
    (p := fun s : SubscribedInstrument => s.Matches exchangeId symbol) ht (decide_eq_true hmatches)
  have hfirst : m.cache.find? (fun s => s.Matches exchangeId symbol) = some s :=
    List.find?_eq_some_iff_append.mpr ⟨hs, pre, post, hcache, fun t ht => by simpa using hpre t ht⟩
  refine ⟨s, pre, post, of_decide_eq_true hs, hcache, ?_⟩
  simp only [removeSubscribedInstrument, hfirst, herase]

theorem remove_not_there (h : ¬ ∃ s ∈ m.cache, s.Matches exchangeId symbol) :
    m.removeSubscribedInstrument exchangeId symbol = (m, false, []) := by
  have hnone : m.cache.find? (fun s => s.Matches exchangeId symbol) = none :=
    List.find?_eq_none.mpr fun s hs hmatches => h ⟨s, hs, of_decide_eq_true hmatches⟩
  simp only [removeSubscribedInstrument, hnone]

/-- A request has the answer and the effect of the specification. -/
def ServedAs (registry : InstrumentRegistry) (m : Subscriptions) (a : Finset Instrument)
    (e : SubscriptionRequest) : Prop :=
  (serve registry m e).2.1 = ((spec registry).serve a e).2 ∧
    (serve registry m e).2.2.length = (spec registry).writes a e ∧
      Stands registry (serve registry m e).1 ((spec registry).serve a e).1

namespace Stands

theorem mem_iff (h : Stands registry m a) : i ∈ a ↔ ∃ s ∈ m.cache, lookUp registry s = some i := by
  rw [← h.instruments, List.mem_toFinset, Subscriptions.instruments, List.mem_filterMap]

/-- An entry matches exactly when the instrument is in the set. -/
theorem exists_matches_iff (h : Stands registry m a) :
    (∃ s ∈ m.cache, s.Matches exchangeId symbol) ↔
      ∃ i ∈ a, registry.bySymbol exchangeId symbol = some i := by
  constructor
  · rintro ⟨s, hs, hmatches⟩
    obtain ⟨i, hi⟩ := Option.isSome_iff_exists.mp (h.registered s hs)
    exact ⟨i, h.mem_iff.mpr ⟨s, hs, hi⟩, lookUp_of_matches hmatches ▸ hi⟩
  · rintro ⟨i, hi, hfound⟩
    obtain ⟨s, hs, hlookUp⟩ := h.mem_iff.mp hi
    exact ⟨s, hs, matches_of_lookUp hlookUp hfound⟩

/-- **A new subscription**: its key is not in the cache. -/
theorem add_new (h : Stands registry m a) (hnew : ¬ ∃ s ∈ m.cache, s.Matches i.exchangeId symbol)
    (hfound : registry.bySymbol i.exchangeId symbol = some i) :
    m.addSubscribedInstrument registry i.exchangeId symbol =
      (⟨m.cache ++ [⟨.instrument i.exchangeId symbol, i, m.nextAddress⟩], m.nextAddress + 1⟩, true,
        [(m.nextAddress, .init), (m.nextAddress, .update i)]) := by
  have hkey : ¬ ∃ t ∈ m.cache, t.key = .instrument i.exchangeId symbol := by
    rintro ⟨t, ht, hkey⟩
    exact hnew ⟨t, ht, h.keys t ht _ _ hkey⟩
  simp only [addSubscribedInstrument, if_neg hnew, hfound, emplace, if_neg hkey]

/-- **One more entry.** -/
theorem append (h : Stands registry m a) (hs : lookUp registry s = some i) (hnew : i ∉ a)
    (hkey : ∀ exchangeId symbol, s.key = .instrument exchangeId symbol →
      s.Matches exchangeId symbol) (nextAddress : ℕ) :
    Stands registry ⟨m.cache ++ [s], nextAddress⟩ (insert i a) := by
  have hone : Subscriptions.instruments registry (m.cache ++ [s]) =
      Subscriptions.instruments registry m.cache ++ [i] := by
    rw [Subscriptions.instruments, List.filterMap_append, List.filterMap_cons_some hs]
    rfl
  have hmem : i ∉ Subscriptions.instruments registry m.cache := by
    rwa [← List.mem_toFinset, h.instruments]
  refine ⟨fun t ht => ?_, ?_, ?_, fun t ht => ?_⟩
  · rcases List.mem_append.mp ht with ht | ht
    · exact h.registered t ht
    · rw [List.mem_singleton.mp ht, hs]
      rfl
  · rw [hone]
    exact (List.nodup_append_comm.mp (List.nodup_cons.mpr ⟨hmem, h.nodup⟩))
  · rw [hone, List.toFinset_append, h.instruments, List.toFinset_cons, List.toFinset_nil,
      Finset.union_comm]
    rfl
  · rcases List.mem_append.mp ht with ht | ht
    · exact h.keys t ht
    · rw [List.mem_singleton.mp ht]
      exact hkey

/-- **One entry less.** -/
theorem remove {pre post : List SubscribedInstrument} (h : Stands registry m a)
    (hcache : m.cache = pre ++ s :: post) (hs : lookUp registry s = some i) :
    Stands registry { m with cache := pre ++ post } (a.erase i) := by
  have hmem : ∀ t ∈ pre ++ post, t ∈ m.cache := by
    intro t ht
    rw [hcache]
    exact (List.sublist_cons_self s post).append_left pre |>.mem ht
  have hperm : (Subscriptions.instruments registry m.cache).Perm
      (i :: Subscriptions.instruments registry (pre ++ post)) := by
    rw [hcache, Subscriptions.instruments, List.filterMap_append, List.filterMap_cons_some hs,
      Subscriptions.instruments, List.filterMap_append]
    exact List.perm_middle
  obtain ⟨hi, hnodup⟩ := List.nodup_cons.mp (hperm.nodup_iff.mp h.nodup)
  refine ⟨fun t ht => h.registered t (hmem t ht), hnodup, ?_, fun t ht => h.keys t (hmem t ht)⟩
  rw [← h.instruments, List.toFinset_eq_of_perm _ _ hperm, List.toFinset_cons,
    Finset.erase_insert (by rwa [List.mem_toFinset])]

/-- A request that changes nothing. -/
theorem servedAs_false (h : Stands registry m a) {e : SubscriptionRequest}
    (hserve : serve registry m e = (m, .done false, []))
    (hspec : (spec registry).serve a e = (a, .done false))
    (hwrites : (spec registry).writes a e = 0) : ServedAs registry m a e := by
  rw [ServedAs, hserve, hspec, hwrites]
  exact ⟨rfl, rfl, h⟩

theorem serve_subscribe (h : Stands registry m a) (exchangeId : ExchangeId) (symbol : String) :
    ServedAs registry m a (.subscribe exchangeId symbol) := by
  by_cases hthere : ∃ s ∈ m.cache, s.Matches exchangeId symbol
  · obtain ⟨i, hi, hfound⟩ := h.exists_matches_iff.mp hthere
    refine h.servedAs_false ?_ ?_ ?_
    · rw [serve, addSubscribedInstrument, if_pos hthere]
    · simp only [spec, hfound, if_pos hi]
    · simp only [spec, hfound, if_pos hi]
  cases hfound : registry.bySymbol exchangeId symbol with
  | none =>
    refine h.servedAs_false ?_ ?_ ?_
    · simp only [serve, addSubscribedInstrument, if_neg hthere, hfound]
    · simp only [spec, hfound]
    · simp only [spec, hfound]
  | some i =>
    obtain ⟨-, rfl, hsymbol⟩ := bySymbol_some hfound
    have hnew : i ∉ a := fun hi => hthere (h.exists_matches_iff.mpr ⟨i, hi, hfound⟩)
    have hspec : (spec registry).serve a (.subscribe i.exchangeId symbol) =
        (insert i a, .done true) := by simp only [spec, hfound, if_neg hnew]
    have hwrites : (spec registry).writes a (.subscribe i.exchangeId symbol) = 2 := by
      simp only [spec, hfound, if_neg hnew]
    rw [ServedAs, hspec, hwrites, serve, h.add_new hthere hfound]
    refine ⟨rfl, rfl, h.append ?_ hnew ?_ _⟩
    · rw [lookUp, hsymbol]
      exact hfound
    · rintro exchangeId' symbol' hkey
      cases hkey
      exact ⟨hsymbol, rfl⟩

theorem serve_unsubscribe (h : Stands registry m a) (exchangeId : ExchangeId) (symbol : String) :
    ServedAs registry m a (.unsubscribe exchangeId symbol) := by
  by_cases hthere : ∃ s ∈ m.cache, s.Matches exchangeId symbol
  · obtain ⟨i, hi, hfound⟩ := h.exists_matches_iff.mp hthere
    obtain ⟨s, pre, post, hs, hcache, hremove⟩ := remove_there hthere
    have hspec : (spec registry).serve a (.unsubscribe exchangeId symbol) =
        (a.erase i, .done true) := by simp only [spec, hfound, if_pos hi]
    have hwrites : (spec registry).writes a (.unsubscribe exchangeId symbol) = 1 := by
      simp only [spec, hfound, if_pos hi]
    rw [ServedAs, hspec, hwrites, serve, hremove]
    refine ⟨rfl, rfl, h.remove hcache ?_⟩
    rw [lookUp_of_matches hs, hfound]
  · have hserve : serve registry m (.unsubscribe exchangeId symbol) = (m, .done false, []) := by
      rw [serve, remove_not_there hthere]
    cases hfound : registry.bySymbol exchangeId symbol with
    | none =>
      exact h.servedAs_false hserve (by simp only [spec, hfound]) (by simp only [spec, hfound])
    | some i =>
      have hnew : i ∉ a := fun hi => hthere (h.exists_matches_iff.mpr ⟨i, hi, hfound⟩)
      exact h.servedAs_false hserve (by simp only [spec, hfound, if_neg hnew])
        (by simp only [spec, hfound, if_neg hnew])

/-- **Every request is served as the specification says.** -/
theorem servedAs (h : Stands registry m a) (e : SubscriptionRequest) :
    ServedAs registry m a e := by
  cases e with
  | subscribe exchangeId symbol => exact h.serve_subscribe exchangeId symbol
  | unsubscribe exchangeId symbol => exact h.serve_unsubscribe exchangeId symbol
  | list =>
    refine ⟨?_, rfl, h⟩
    change getSubscribedInstruments registry m = .listed a
    rw [getSubscribedInstruments, if_pos h.registered, ← h.instruments]
    rfl

end Stands

end Subscriptions

end TradingEngine
