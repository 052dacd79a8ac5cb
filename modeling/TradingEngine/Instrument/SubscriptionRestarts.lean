import TradingEngine.Account.Registry
import TradingEngine.Instrument.Subscriptions

/-!
# Instrument/SubscriptionRestarts — what a restart leaves of the subscribed instruments

The tasks of the subscriptions run in order on one thread; when the process ends, those that have
not run are lost.  At its start the process reads an instrument from every document and looks it up
in its registry.  A document that is still empty is of no instrument there, and the exception ends
the program.

* **`Subscriptions.trace_of_run`** — the answers of a run, whenever its tasks run and wherever it
  is started again.
* **`Subscriptions.restart_of_run`** — what the next start finds: the subscriptions behind the last
  request whose tasks have all run, or no start at all between the two tasks of one.
-/

namespace TradingEngine

open Ascii

namespace Subscriptions

open WriteBehind

variable {doubles : DoubleText} {registry : InstrumentRegistry} {stored : JsonItem → JsonItem}
  {store : SubscriptionStore} {m : Subscriptions} {a : Finset Instrument} {i : Instrument}
  {s : SubscribedInstrument} {exchangeId : ExchangeId} {symbol : String} {address : ℕ}

/-! ## What is relied on -/

open JsonItem

/-- **What is relied on of the collection**: storable texts of a document that fits come back, and
its integers; a floating value comes back as a number, and an empty document with its `_id` only. -/
structure FaithfulToInstruments (doubles : DoubleText) (stored : JsonItem → JsonItem) : Prop where
  texts : Faithful doubles stored
  integers : ∀ {doc}, Fits doubles doc → ∀ {name n}, doc.field name = ofInteger n →
    (stored doc).field name = ofInteger n
  numbers : ∀ {doc}, Fits doubles doc → ∀ {name x}, doc.field name = ofDouble x →
    ((stored doc).field name).toDouble.isSome
  empty : ∀ {name}, name ≠ text "_id" →
    (stored SubscriptionStore.emptyDocument).field name = .nullptr

/-- An instrument that can be stored. -/
structure Recordable (doubles : DoubleText) (i : Instrument) : Prop where
  exchange : i.exchangeId ≠ .noneExchange
  symbol : Printable (utf8 i.symbol)
  fits : ∀ item ∈ i.toItem, Fits doubles item

theorem readSize_isSome (n : ℤ) : (Instrument.readSize (ofInteger n)).isSome := rfl

/-- The fields of the document of an instrument. -/
theorem field_toItem {item : JsonItem} (h : i.toItem = some item) :
    item.field (text "exchange_id") = ofText (Reflected.name i.exchangeId) ∧
      item.field (text "symbol") = ofText i.symbol ∧
      item.field (text "lot_size") = ofInteger i.lotSize ∧
      item.field (text "tick_size") = ofInteger i.tickSize ∧
      item.field (text "price_precision") = ofDouble i.pricePrecision := by
  obtain rfl := Option.some.inj (i.toItem_eq.symm.trans h)
  refine ⟨field_cons_self _ _ _, ?_, ?_, ?_, ?_⟩ <;>
    simp (disch := (rw [text_ofList, text_ofList]; decide)) only [field_cons_self, field_cons_of_ne]

/-- **The document of an instrument** comes back with its exchange and its symbol. -/
theorem FaithfulToInstruments.kept (h : FaithfulToInstruments doubles stored)
    (hi : Recordable doubles i) {item : JsonItem} (hitem : i.toItem = some item) :
    ∃ object, Instrument.ofItem doubles (stored item) = some object ∧
      object.exchangeId = i.exchangeId ∧ object.symbol = i.symbol := by
  have hfits : Fits doubles item := hi.fits item hitem
  obtain ⟨hexchange, hsymbol, hlot, htick, hprecision⟩ := field_toItem hitem
  have hexchange' : (stored item).field (text "exchange_id") = _ :=
    (h.texts hfits _ (hexchange ▸ .string (AccountData.printable_name _))).trans hexchange
  have hsymbol' : (stored item).field (text "symbol") = _ :=
    (h.texts hfits _ (hsymbol ▸ .string hi.symbol)).trans hsymbol
  obtain ⟨lot, hlot'⟩ := Option.isSome_iff_exists.mp (readSize_isSome i.lotSize)
  obtain ⟨tick, htick'⟩ := Option.isSome_iff_exists.mp (readSize_isSome i.tickSize)
  obtain ⟨precision, hprecision'⟩ := Option.isSome_iff_exists.mp (h.numbers hfits hprecision)
  rw [Instrument.ofItem, h.integers hfits hlot, h.integers hfits htick, hexchange', hsymbol', hlot',
    htick', hprecision']
  refine ⟨_, rfl, ?_, ?_⟩
  · exact readEnum_name i.exchangeId.inTable doubles
  · exact ofUtf8_utf8 i.symbol

theorem readEnum_nullptr : readEnum doubles .nullptr = ExchangeId.noneExchange := by
  have hnull : JsonItem.nullptr.toStdString doubles = text "null" := by
    rw [text_ofList]
    rfl
  rw [readEnum, hnull, text_ofList]
  decide +kernel

/-- An empty document is of no exchange. -/
theorem FaithfulToInstruments.empty_exchange (h : FaithfulToInstruments doubles stored)
    {object : Instrument}
    (hobject : Instrument.ofItem doubles (stored SubscriptionStore.emptyDocument) = some object) :
    object.exchangeId = .noneExchange := by
  have hname : text "exchange_id" ≠ text "_id" := by
    rw [text_ofList, text_ofList]
    decide
  have hexchange := h.empty hname
  rw [Instrument.ofItem] at hobject
  obtain ⟨lot, -, hobject⟩ := Option.bind_eq_some_iff.mp hobject
  obtain ⟨tick, -, hobject⟩ := Option.bind_eq_some_iff.mp hobject
  obtain ⟨precision, -, hobject⟩ := Option.bind_eq_some_iff.mp hobject
  cases hobject
  change readEnum doubles _ = _
  rw [hexchange, readEnum_nullptr]

/-- The instrument of a document. -/
def reads (doubles : DoubleText) (registry : InstrumentRegistry) (doc : JsonItem) :
    Option Instrument :=
  (Instrument.ofItem doubles doc).bind fun object =>
    registry.bySymbol object.exchangeId object.symbol

theorem reads_kept (h : FaithfulToInstruments doubles stored)
    (hregistry : ∀ i ∈ registry.instruments, Recordable doubles i) {item : JsonItem}
    (hi : registry.bySymbol exchangeId symbol = some i) (hitem : i.toItem = some item) :
    reads doubles registry (stored item) = some i := by
  obtain ⟨hmem, rfl, rfl⟩ := bySymbol_some hi
  obtain ⟨object, hobject, hexchange, hsymbol⟩ := h.kept (hregistry i hmem) hitem
  rw [reads, hobject, Option.bind_some, hexchange, hsymbol, hi]

theorem reads_empty (h : FaithfulToInstruments doubles stored)
    (hregistry : ∀ i ∈ registry.instruments, Recordable doubles i) :
    reads doubles registry (stored SubscriptionStore.emptyDocument) = none := by
  rw [reads, Option.bind_eq_none_iff]
  intro object hobject
  rw [h.empty_exchange hobject]
  refine Option.eq_none_iff_forall_ne_some.mpr fun i hi => ?_
  obtain ⟨hmem, hexchange, -⟩ := bySymbol_some hi
  exact (hregistry i hmem).exchange hexchange

/-! ## The start -/

/-- **The collection holds a set of instruments**: each document is of one of them, and each of them
has one. -/
structure Holds (doubles : DoubleText) (registry : InstrumentRegistry) (store : SubscriptionStore)
    (a : Finset Instrument) : Prop where
  fresh : ∀ d ∈ store.documents, d < store.nextId
  readable : ∀ entry ∈ store.documents.entries, (reads doubles registry entry.2).isSome
  nodup : (store.documents.entries.filterMap fun entry => reads doubles registry entry.2).Nodup
  instruments : ∀ i, i ∈ a ↔
    ∃ entry ∈ store.documents.entries, reads doubles registry entry.2 = some i

/-- **The store is up to date with a memory**: every entry has its own data model and its own
document, and there are no other documents. -/
structure Keeps (doubles : DoubleText) (registry : InstrumentRegistry) (store : SubscriptionStore)
    (m : Subscriptions) : Prop where
  fresh : ∀ d ∈ store.documents, d < store.nextId
  unused : ∀ address, m.nextAddress ≤ address → store.models address = {}
  inUse : ∀ s ∈ m.cache, s.address < m.nextAddress
  addresses : m.cache.Pairwise fun s t => s.address ≠ t.address
  document : ∀ s ∈ m.cache, ∃ d doc, (store.models s.address).id = some d ∧
    store.documents.lookup d = some doc ∧ reads doubles registry doc = lookUp registry s
  distinct : ∀ s ∈ m.cache, ∀ t ∈ m.cache,
    (store.models s.address).id = (store.models t.address).id → s.address = t.address
  owner : ∀ d ∈ store.documents, ∃ s ∈ m.cache, (store.models s.address).id = some d

theorem mapM_of_forall {β γ : Type} {f : β → Option γ} {l : List β}
    (h : ∀ x ∈ l, (f x).isSome) : l.mapM f = some (l.filterMap f) := by
  induction l with
  | nil => rfl
  | cons x l ih =>
    obtain ⟨hx, hl⟩ := List.forall_mem_cons.mp h
    obtain ⟨y, hy⟩ := Option.isSome_iff_exists.mp hx
    rw [List.mapM_cons, hy, ih hl, List.filterMap_cons_some hy]
    rfl

theorem mapM_of_exists {β γ : Type} {f : β → Option γ} {l : List β} {x : β} (hx : x ∈ l)
    (h : f x = none) : l.mapM f = none := by
  induction l with
  | nil => cases hx
  | cons y l ih =>
    rw [List.mapM_cons]
    rcases List.mem_cons.mp hx with rfl | hx
    · rw [h]
      rfl
    · rw [ih hx]
      cases f y <;> rfl

/-- What is loaded from a document is an entry of its instrument. -/
theorem of_loadEntry {entry : Sigma fun _ : DocId => JsonItem}
    (h : loadEntry doubles registry entry = some s) :
    s.key = .document entry.1 ∧ s.address = entry.1 ∧
      lookUp registry s = reads doubles registry entry.2 ∧ (lookUp registry s).isSome := by
  obtain ⟨object, hobject, hentry⟩ := Option.bind_eq_some_iff.mp h
  dsimp only at hentry
  split_ifs at hentry with hsome
  cases hentry
  refine ⟨rfl, rfl, ?_, hsome⟩
  rw [reads, hobject]
  rfl

theorem loadEntry_isSome {entry : Sigma fun _ : DocId => JsonItem}
    (h : (reads doubles registry entry.2).isSome) :
    (loadEntry doubles registry entry).isSome := by
  obtain ⟨i, hi⟩ := Option.isSome_iff_exists.mp h
  obtain ⟨object, hobject, hfound⟩ := Option.bind_eq_some_iff.mp hi
  rw [loadEntry, hobject, Option.bind_some]
  dsimp only
  rw [if_pos (by rw [lookUp, hfound]; rfl)]
  rfl

/-- The entries that are loaded. -/
theorem mem_loaded {db : AList fun _ : DocId => JsonItem} :
    s ∈ db.entries.filterMap (loadEntry doubles registry) ↔
      ∃ d doc, db.lookup d = some doc ∧ loadEntry doubles registry ⟨d, doc⟩ = some s := by
  rw [List.mem_filterMap]
  constructor
  · rintro ⟨⟨d, doc⟩, hmem, hload⟩
    exact ⟨d, doc, AList.mem_lookup_iff.mpr hmem, hload⟩
  · rintro ⟨d, doc, hlookup, hload⟩
    exact ⟨⟨d, doc⟩, AList.mem_lookup_iff.mp hlookup, hload⟩

/-- The instruments of the loaded entries are those of the documents. -/
theorem instruments_loaded (entries : List (Sigma fun _ : DocId => JsonItem))
    (h : ∀ entry ∈ entries, (reads doubles registry entry.2).isSome) :
    instruments registry (entries.filterMap (loadEntry doubles registry)) =
      entries.filterMap fun entry => reads doubles registry entry.2 := by
  rw [instruments, List.filterMap_filterMap]
  refine List.filterMap_congr fun entry hentry => ?_
  obtain ⟨s, hs⟩ := Option.isSome_iff_exists.mp (loadEntry_isSome (h entry hentry))
  rw [hs, Option.bind_some, (of_loadEntry hs).2.2.1]

theorem mem_documents {d : DocId} {doc : JsonItem} (h : store.documents.lookup d = some doc) :
    d ∈ store.documents := AList.lookup_isSome.mp (by rw [h]; rfl)

/-- The data models at a start. -/
def restoredModels (store : SubscriptionStore) (id : ℕ) : DataModel :=
  if id ∈ store.documents then { id := some id } else {}

/-- What is loaded is up to date. -/
theorem keeps_loaded (h : Holds doubles registry store a) :
    Keeps doubles registry { store with models := restoredModels store }
      ⟨store.documents.entries.filterMap (loadEntry doubles registry), store.nextId⟩ := by
  have hmodel : ∀ {s}, s ∈ store.documents.entries.filterMap (loadEntry doubles registry) →
      ∃ doc, store.documents.lookup s.address = some doc ∧
        reads doubles registry doc = lookUp registry s ∧
          restoredModels store s.address = { id := some s.address } := by
    intro s hs
    obtain ⟨d, doc, hlookup, hentry⟩ := mem_loaded.mp hs
    obtain ⟨-, rfl, hlook, -⟩ := of_loadEntry hentry
    exact ⟨doc, hlookup, hlook.symm, if_pos (mem_documents hlookup)⟩
  refine ⟨h.fresh, fun d hd => if_neg fun hmem => absurd (h.fresh d hmem) (Nat.not_lt.mpr hd),
    fun s hs => ?_, ?_, fun s hs => ?_, fun s hs t ht heq => ?_, fun d hd => ?_⟩
  · obtain ⟨doc, hlookup, -⟩ := hmodel hs
    exact h.fresh _ (mem_documents hlookup)
  · rw [List.pairwise_filterMap]
    refine store.documents.nodupKeys.pairwise_ne.imp fun hne s hs t ht => ?_
    rw [(of_loadEntry hs).2.1, (of_loadEntry ht).2.1]
    exact hne
  · obtain ⟨doc, hlookup, hreads, hid⟩ := hmodel hs
    exact ⟨s.address, doc, congrArg DataModel.id hid, hlookup, hreads⟩
  · obtain ⟨-, -, -, hs⟩ := hmodel hs
    obtain ⟨-, -, -, ht⟩ := hmodel ht
    dsimp only at heq
    rw [hs, ht] at heq
    exact Option.some.inj heq
  · obtain ⟨doc, hlookup⟩ := Option.isSome_iff_exists.mp (AList.lookup_isSome.mpr hd)
    have hmem := AList.mem_lookup_iff.mp hlookup
    obtain ⟨s, hs⟩ := Option.isSome_iff_exists.mp (loadEntry_isSome (h.readable _ hmem))
    refine ⟨s, mem_loaded.mpr ⟨d, doc, hlookup, hs⟩, ?_⟩
    rw [(of_loadEntry hs).2.1]
    exact congrArg DataModel.id (if_pos hd)

/-- **A start from a collection that holds a set of instruments.** -/
theorem start_of_holds (h : Holds doubles registry store a) :
    ∃ m store', start doubles registry store = some (m, store') ∧
      Keeps doubles registry store' m ∧ Stands registry m a := by
  have hload : ∀ entry ∈ store.documents.entries, (loadEntry doubles registry entry).isSome :=
    fun entry hentry => loadEntry_isSome (h.readable entry hentry)
  have hinstruments := instruments_loaded store.documents.entries h.readable
  refine ⟨_, _, by rw [start, mapM_of_forall hload]; rfl, keeps_loaded h, fun s hs => ?_, ?_, ?_,
    fun s hs exchangeId symbol hkey => ?_⟩
  · obtain ⟨d, doc, hlookup, hentry⟩ := mem_loaded.mp hs
    exact (of_loadEntry hentry).2.2.2
  · exact hinstruments ▸ h.nodup
  · rw [hinstruments]
    ext i
    rw [List.mem_toFinset, List.mem_filterMap, h.instruments]
  · obtain ⟨d, doc, hlookup, hentry⟩ := mem_loaded.mp hs
    rw [(of_loadEntry hentry).1] at hkey
    cases hkey

/-- A document that is of no instrument ends the program. -/
theorem start_eq_none {d : DocId} {doc : JsonItem} (hlookup : store.documents.lookup d = some doc)
    (h : reads doubles registry doc = none) : start doubles registry store = none := by
  have hload : loadEntry doubles registry ⟨d, doc⟩ = none := by
    refine Option.eq_none_iff_forall_ne_some.mpr fun s hs => ?_
    obtain ⟨-, -, hlook, hsome⟩ := of_loadEntry hs
    rw [hlook, h] at hsome
    cases hsome
  rw [start, mapM_of_exists (AList.mem_lookup_iff.mp hlookup) hload]
  rfl

/-- An instrument has one entry. -/
theorem Stands.eq_of_lookUp (h : Stands registry m a) {t : SubscribedInstrument} (hs : s ∈ m.cache)
    (ht : t ∈ m.cache) (hsi : lookUp registry s = some i) (hti : lookUp registry t = some i) :
    s = t := by
  have hpairwise : m.cache.Pairwise fun s t => ¬ (lookUp registry s = some i ∧
      lookUp registry t = some i) :=
    (List.pairwise_filterMap.mp h.nodup).imp fun hst hboth => hst i hboth.1 i hboth.2 rfl
  have : Std.Symm fun s t => ¬ (lookUp registry s = some i ∧ lookUp registry t = some i) :=
    ⟨fun s t hst hboth => hst hboth.symm⟩
  by_contra hne
  exact hpairwise.forall hs ht hne ⟨hsi, hti⟩

/-- **A store that is up to date holds the set of its memory.** -/
theorem holds_of_keeps (h : Keeps doubles registry store m) (hm : Stands registry m a) :
    Holds doubles registry store a := by
  have howner : ∀ entry ∈ store.documents.entries, ∃ s ∈ m.cache,
      (store.models s.address).id = some entry.1 ∧
        reads doubles registry entry.2 = lookUp registry s := by
    rintro ⟨d, doc⟩ hentry
    have hlookup : store.documents.lookup d = some doc := AList.mem_lookup_iff.mpr hentry
    obtain ⟨s, hs, hid⟩ := h.owner d (mem_documents hlookup)
    obtain ⟨d', doc', hid', hlookup', hreads⟩ := h.document s hs
    obtain rfl : d' = d := Option.some.inj (hid'.symm.trans hid)
    obtain rfl : doc' = doc := Option.some.inj (hlookup'.symm.trans hlookup)
    exact ⟨s, hs, hid, hreads⟩
  refine ⟨h.fresh, fun entry hentry => ?_, ?_, fun i => ?_⟩
  · obtain ⟨s, hs, -, hreads⟩ := howner entry hentry
    rw [hreads]
    exact hm.registered s hs
  · rw [List.Nodup, List.pairwise_filterMap]
    refine store.documents.nodupKeys.pairwise_ne.imp_of_mem fun {e f} he hf hne i hi j hj hij => ?_
    obtain ⟨s, hs, hsid, hsreads⟩ := howner e he
    obtain ⟨t, ht, htid, htreads⟩ := howner f hf
    obtain rfl := hm.eq_of_lookUp hs ht (hsreads ▸ hi) (hij ▸ htreads ▸ hj)
    exact hne (Option.some.inj (hsid.symm.trans htid))
  · rw [hm.mem_iff]
    constructor
    · rintro ⟨s, hs, hlook⟩
      obtain ⟨d, doc, -, hlookup, hreads⟩ := h.document s hs
      exact ⟨⟨d, doc⟩, AList.mem_lookup_iff.mp hlookup, hreads.trans hlook⟩
    · rintro ⟨entry, hentry, hreads⟩
      obtain ⟨s, hs, -, hlook⟩ := howner entry hentry
      exact ⟨s, hs, hlook ▸ hreads⟩

/-! ## The tasks -/

/-- Behind the first task of a new object its document is empty. -/
theorem write_init (stored : JsonItem → JsonItem) (hunused : store.models address = {}) :
    store.write stored (address, .init) = some
      { documents := store.documents.insert store.nextId (stored SubscriptionStore.emptyDocument)
        nextId := store.nextId + 1
        models := Function.update store.models address ⟨some store.nextId, false⟩ } := by
  rw [SubscriptionStore.write, hunused]
  rfl

/-- **The two tasks of a new object** leave one more document. -/
theorem writeAll_subscribe (hunused : store.models address = {}) {item : JsonItem}
    (hitem : i.toItem = some item) :
    (process doubles registry stored).writeAll store [(address, .init), (address, .update i)] =
      some
        { documents := store.documents.insert store.nextId (stored item)
          nextId := store.nextId + 1
          models := Function.update store.models address ⟨some store.nextId, true⟩ } := by
  have hinit := write_init stored hunused
  simp only [WriteBehind.Process.writeAll, process, hinit, Option.bind_some]
  simp only [SubscriptionStore.write, hitem, Option.map_some, SubscriptionStore.saveToDb,
    Function.update_self, AList.mem_insert, true_or, if_true, SubscriptionStore.replaceOne,
    SubscriptionStore.setModel, AList.insert_insert, Function.update_idem, Option.bind_some]

/-- No data model has the id of the next document. -/
theorem Keeps.id_ne (h : Keeps doubles registry store m) (hs : s ∈ m.cache) :
    (store.models s.address).id ≠ some store.nextId := by
  obtain ⟨d, doc, hid, hlookup, -⟩ := h.document s hs
  have hne : d ≠ store.nextId := Nat.ne_of_lt (h.fresh d (mem_documents hlookup))
  rw [hid]
  exact fun heq => hne (Option.some.inj heq)

/-- One more document and one more entry. -/
theorem keeps_append (h : Keeps doubles registry store m) (haddress : s.address = m.nextAddress)
    {doc : JsonItem} (hreads : reads doubles registry doc = lookUp registry s) :
    Keeps doubles registry
      { documents := store.documents.insert store.nextId doc
        nextId := store.nextId + 1
        models := Function.update store.models m.nextAddress ⟨some store.nextId, true⟩ }
      ⟨m.cache ++ [s], m.nextAddress + 1⟩ := by
  have hself : Function.update store.models m.nextAddress ⟨some store.nextId, true⟩ s.address =
      ⟨some store.nextId, true⟩ := by rw [haddress, Function.update_self]
  have hother : ∀ t ∈ m.cache, Function.update store.models m.nextAddress
      ⟨some store.nextId, true⟩ t.address = store.models t.address := fun t ht =>
    Function.update_of_ne (Nat.ne_of_lt (h.inUse t ht)) _ _
  constructor
  case fresh =>
    intro d hd
    rcases (AList.mem_insert _).mp hd with rfl | hd
    · exact Nat.lt_succ_self _
    · exact Nat.lt_succ_of_lt (h.fresh d hd)
  case unused =>
    intro address haddress'
    have hne : address ≠ m.nextAddress := Nat.ne_of_gt haddress'
    exact (Function.update_of_ne hne _ _).trans (h.unused address (Nat.le_of_succ_le haddress'))
  case inUse =>
    intro t ht
    rcases List.mem_append.mp ht with ht | ht
    · exact Nat.lt_succ_of_lt (h.inUse t ht)
    · rw [List.mem_singleton.mp ht, haddress]
      exact Nat.lt_succ_self _
  case addresses =>
    refine List.pairwise_append.mpr ⟨h.addresses, List.pairwise_singleton _ _, fun t ht u hu => ?_⟩
    rw [List.mem_singleton.mp hu, haddress]
    exact Nat.ne_of_lt (h.inUse t ht)
  case document =>
    intro t ht
    rcases List.mem_append.mp ht with ht | ht
    · obtain ⟨d, doc', hid, hlookup, hdoc⟩ := h.document t ht
      have hne : d ≠ store.nextId := Nat.ne_of_lt (h.fresh d (mem_documents hlookup))
      exact ⟨d, doc', (congrArg DataModel.id (hother t ht)).trans hid,
        (AList.lookup_insert_ne hne).trans hlookup, hdoc⟩
    · rw [List.mem_singleton.mp ht]
      exact ⟨_, doc, congrArg DataModel.id hself, AList.lookup_insert _, hreads⟩
  case distinct =>
    intro t ht u hu heq
    dsimp only at heq
    rcases List.mem_append.mp ht with ht | ht <;> rcases List.mem_append.mp hu with hu | hu
    · rw [hother t ht, hother u hu] at heq
      exact h.distinct t ht u hu heq
    · rw [hother t ht, List.mem_singleton.mp hu, hself] at heq
      exact absurd heq (h.id_ne ht)
    · rw [hother u hu, List.mem_singleton.mp ht, hself] at heq
      exact absurd heq.symm (h.id_ne hu)
    · rw [List.mem_singleton.mp ht, List.mem_singleton.mp hu]
  case owner =>
    intro d hd
    rcases (AList.mem_insert _).mp hd with rfl | hd
    · exact ⟨s, List.mem_append_right _ (List.mem_singleton_self s), congrArg DataModel.id hself⟩
    · obtain ⟨t, ht, hid⟩ := h.owner d hd
      exact ⟨t, List.mem_append_left _ ht, (congrArg DataModel.id (hother t ht)).trans hid⟩

/-- One entry and its document less. -/
theorem keeps_remove (h : Keeps doubles registry store m) {pre post : List SubscribedInstrument}
    (hcache : m.cache = pre ++ s :: post) :
    ∃ store', (process doubles registry stored).writeAll store [(s.address, .remove)] =
        some store' ∧ Keeps doubles registry store' { m with cache := pre ++ post } := by
  have hmem : ∀ t, t ∈ m.cache ↔ t = s ∨ t ∈ pre ++ post := fun t => by
    rw [hcache, List.perm_middle.mem_iff, List.mem_cons]
  have hs : s ∈ m.cache := (hmem s).mpr (.inl rfl)
  have haddresses := h.addresses
  rw [hcache, List.perm_middle.pairwise_iff (fun hne => Ne.symm hne), List.pairwise_cons]
    at haddresses
  obtain ⟨d, doc, hid, hlookup, -⟩ := h.document s hs
  have hwrite : (process doubles registry stored).writeAll store [(s.address, .remove)] =
      some ((store.deleteOne d).setModel s.address
        { store.models s.address with id := none }) := by
    simp only [WriteBehind.Process.writeAll, process, SubscriptionStore.write, hid,
      Option.map_some, Option.bind_some]
  refine ⟨_, hwrite, ?_⟩
  have hother : ∀ t ∈ pre ++ post, Function.update store.models s.address
      { store.models s.address with id := none } t.address = store.models t.address := fun t ht =>
    Function.update_of_ne (haddresses.1 t ht).symm _ _
  constructor
  case fresh => exact fun d' hd' => h.fresh d' (AList.mem_erase.mp hd').2
  case unused =>
    intro address haddress
    have hne : address ≠ s.address := Nat.ne_of_gt (Nat.lt_of_lt_of_le (h.inUse s hs) haddress)
    exact (Function.update_of_ne hne _ _).trans (h.unused address haddress)
  case inUse => exact fun t ht => h.inUse t ((hmem t).mpr (.inr ht))
  case addresses => exact haddresses.2
  case document =>
    intro t ht
    have htcache := (hmem t).mpr (.inr ht)
    obtain ⟨d', doc', hid', hlookup', hreads⟩ := h.document t htcache
    have hne : d' ≠ d := by
      rintro rfl
      exact haddresses.1 t ht (h.distinct s hs t htcache (hid.trans hid'.symm))
    exact ⟨d', doc', (congrArg DataModel.id (hother t ht)).trans hid',
      (AList.lookup_erase_ne hne).trans hlookup', hreads⟩
  case distinct =>
    intro t ht u hu heq
    have heq' : (store.models t.address).id = (store.models u.address).id :=
      (congrArg DataModel.id (hother t ht)).symm.trans
        (heq.trans (congrArg DataModel.id (hother u hu)))
    exact h.distinct t ((hmem t).mpr (.inr ht)) u ((hmem u).mpr (.inr hu)) heq'
  case owner =>
    intro d' hd'
    obtain ⟨hne, hd⟩ := AList.mem_erase.mp hd'
    obtain ⟨t, ht, hid'⟩ := h.owner d' hd
    rcases (hmem t).mp ht with rfl | ht
    · exact absurd (Option.some.inj (hid'.symm.trans hid)) hne
    · exact ⟨t, ht, (congrArg DataModel.id (hother t ht)).trans hid'⟩

/-- **What a request does** to the memory, and what it posts. -/
inductive Served (registry : InstrumentRegistry) (m : Subscriptions) :
    Subscriptions → List Posted → Prop
  | nothing : Served registry m m []
  | added {i : Instrument} (hfound : registry.bySymbol i.exchangeId i.symbol = some i) :
    Served registry m
      ⟨m.cache ++ [⟨.instrument i.exchangeId i.symbol, i, m.nextAddress⟩], m.nextAddress + 1⟩
      [(m.nextAddress, .init), (m.nextAddress, .update i)]
  | removed {s : SubscribedInstrument} {pre post : List SubscribedInstrument}
      (hcache : m.cache = pre ++ s :: post) :
    Served registry m { m with cache := pre ++ post } [(s.address, .remove)]

theorem served (hm : Stands registry m a) (e : SubscriptionRequest) :
    Served registry m (serve registry m e).1 (serve registry m e).2.2 := by
  cases e with
  | subscribe exchangeId symbol =>
    rw [serve]
    by_cases hthere : ∃ s ∈ m.cache, s.Matches exchangeId symbol
    · rw [addSubscribedInstrument, if_pos hthere]
      exact .nothing
    cases hfound : registry.bySymbol exchangeId symbol with
    | none =>
      simp only [addSubscribedInstrument, if_neg hthere, hfound]
      exact .nothing
    | some i =>
      obtain ⟨-, rfl, rfl⟩ := bySymbol_some hfound
      rw [hm.add_new hthere hfound]
      exact .added hfound
  | unsubscribe exchangeId symbol =>
    rw [serve]
    by_cases hthere : ∃ s ∈ m.cache, s.Matches exchangeId symbol
    · obtain ⟨s, pre, post, -, hcache, hremove⟩ := remove_there hthere
      rw [hremove]
      exact .removed hcache
    · rw [remove_not_there hthere]
      exact .nothing
  | list => exact .nothing

/-- **What is posted brings the store up to date.** -/
theorem saves (h : FaithfulToInstruments doubles stored)
    (hregistry : ∀ i ∈ registry.instruments, Recordable doubles i)
    (hkeeps : Keeps doubles registry store m) {m' : Subscriptions} {tasks : List Posted}
    (hserved : Served registry m m' tasks) :
    ∃ store', (process doubles registry stored).writeAll store tasks = some store' ∧
      Keeps doubles registry store' m' := by
  cases hserved with
  | nothing => exact ⟨store, rfl, hkeeps⟩
  | @added i hfound =>
    have hitem := i.toItem_eq
    refine ⟨_, writeAll_subscribe (hkeeps.unused _ le_rfl) hitem, keeps_append hkeeps rfl ?_⟩
    exact (reads_kept h hregistry hfound hitem).trans hfound.symm
  | removed hcache => exact keeps_remove hkeeps hcache

/-- **Between two tasks** there is an empty document, and the program does not start. -/
theorem cuts (h : FaithfulToInstruments doubles stored)
    (hregistry : ∀ i ∈ registry.instruments, Recordable doubles i)
    (hkeeps : Keeps doubles registry store m) {m' : Subscriptions} {tasks : List Posted} {k : ℕ}
    (hserved : Served registry m m' tasks) (hpos : 0 < k) (hlt : k < tasks.length)
    {store' : SubscriptionStore}
    (hwrite : (process doubles registry stored).writeAll store (tasks.take k) = some store') :
    start doubles registry store' = none := by
  cases hserved with
  | nothing => exact absurd hlt (Nat.not_lt_zero k)
  | added hfound =>
    obtain rfl : k = 1 := Nat.le_antisymm (Nat.lt_succ_iff.mp hlt) hpos
    obtain ⟨store₁, hinit, hdone⟩ := Option.bind_eq_some_iff.mp hwrite
    obtain rfl := Option.some.inj ((write_init stored (hkeeps.unused _ le_rfl)).symm.trans hinit)
    obtain rfl := Option.some.inj hdone
    exact start_eq_none (AList.lookup_insert _) (reads_empty h hregistry)
  | removed hcache => exact absurd (Nat.lt_of_lt_of_le hlt hpos) (Nat.lt_irrefl _)

/-! ## The runs -/

/-- **The process implements the specification.** -/
theorem implements (h : FaithfulToInstruments doubles stored)
    (hregistry : ∀ i ∈ registry.instruments, Recordable doubles i) :
    Implements (process doubles registry stored) (spec registry) (Stands registry)
      (Keeps doubles registry) where
  starts hkeeps hm := start_of_holds (holds_of_keeps hkeeps hm)
  serves e hm := hm.servedAs e
  saves e hkeeps hm := saves h hregistry hkeeps (served hm e)
  cuts {_ _ _ _ e _} hkeeps hm hpos hlt hwrite :=
    cuts h hregistry hkeeps (served hm e) hpos ((hm.servedAs e).2.1 ▸ hlt) hwrite

/-- **The answers of a run**, whenever its tasks run and wherever it is started again, are those of
the specification: behind a start that ends the program there are none. -/
theorem trace_of_run (h : FaithfulToInstruments doubles stored)
    (hregistry : ∀ i ∈ registry.instruments, Recordable doubles i)
    (hstore : Holds doubles registry store a) (es : List (Event SubscriptionRequest)) :
    Run.trace (process doubles registry stored).step ⟨none, [], store⟩ (.restart :: es) =
      Run.trace (spec registry).step (some ⟨a, [], 0⟩) es :=
  (implements h hregistry).trace_of_starts (start_of_holds hstore) es

/-- Only a new subscription has two tasks. -/
theorem writes_le (registry : InstrumentRegistry) (a : Finset Instrument)
    (e : SubscriptionRequest) : (spec registry).writes a e ≤ 2 := by
  cases e with
  | subscribe exchangeId symbol =>
    dsimp only [spec]
    split
    · exact Nat.zero_le 2
    · split_ifs <;> omega
  | unsubscribe exchangeId symbol =>
    dsimp only [spec]
    split
    · exact Nat.zero_le 2
    · split_ifs <;> omega
  | list => exact Nat.zero_le 2

/-- The collection where a run from a start is cut. -/
def storeAfter (doubles : DoubleText) (registry : InstrumentRegistry)
    (stored : JsonItem → JsonItem) (store : SubscriptionStore)
    (es : List (Event SubscriptionRequest)) : SubscriptionStore :=
  (Run.exec (Run.next (process doubles registry stored).step) ⟨none, [], store⟩
    (.restart :: es)).store

/-- **What the next start finds**, wherever a run is cut: the subscriptions behind the last request
whose tasks have all run, or no start at all, if one of the two tasks of a subscription has. -/
theorem restart_of_run (h : FaithfulToInstruments doubles stored)
    (hregistry : ∀ i ∈ registry.instruments, Recordable doubles i)
    (hstore : Holds doubles registry store a) (es : List (Event SubscriptionRequest))
    {l : Log (Finset Instrument) SubscriptionRequest}
    (hl : Run.exec (Run.next (spec registry).step) (some ⟨a, [], 0⟩) es = some l) :
    ∃ done rest, l.requests = done ++ rest ∧ (spec registry).total l.base done ≤ l.written ∧
      ((∃ m store', start doubles registry (storeAfter doubles registry stored store es) =
            some (m, store') ∧ Stands registry m ((spec registry).after l.base done)) ∧
          (rest = [] ∨ l.written = (spec registry).total l.base done) ∨
        start doubles registry (storeAfter doubles registry stored store es) = none ∧
          l.written = (spec registry).total l.base done + 1 ∧
          ∃ e later, rest = e :: later ∧
            (spec registry).writes ((spec registry).after l.base done) e = 2) := by
  have hstarts := (implements h hregistry).starts_of_run (w := ⟨none, [], store⟩)
    (start_of_holds hstore) es
  rw [hl, Option.bind_some] at hstarts
  obtain ⟨done, rest, hrequests, htotal, hfound | hcut⟩ :=
    (spec registry).found_of_writes l.base l.requests l.written
  · obtain ⟨hfound, hrest⟩ := hfound
    rw [hfound] at hstarts
    obtain ⟨m, store', hstart, -, hm⟩ := hstarts
    exact ⟨done, rest, hrequests, htotal, .inl ⟨⟨m, store', hstart, hm⟩, hrest⟩⟩
  · obtain ⟨e, later, rfl, hpos, hlt, hfound⟩ := hcut
    have htwo := writes_le registry ((spec registry).after l.base done) e
    rw [hfound] at hstarts
    exact ⟨done, _, hrequests, htotal, .inr ⟨hstarts, by omega, e, later, rfl, by omega⟩⟩

/-! ## A subscription of one instrument -/

theorem holds_empty : Holds doubles registry {} ∅ :=
  ⟨fun d hd => absurd hd (AList.notMem_empty d), fun entry hentry => absurd hentry List.not_mem_nil,
    List.nodup_nil, fun i => by
      constructor
      · exact fun hi => absurd hi (Finset.notMem_empty i)
      · rintro ⟨entry, hentry, -⟩
        exact absurd hentry List.not_mem_nil⟩

/-- `10 ^ -8` is the one floating value here. -/
def precisionText : DoubleText := ⟨fun _ => text "1e-08", fun _ => some (1 / 10 ^ 8)⟩

theorem faithfulToInstruments_withObjectId : FaithfulToInstruments precisionText withObjectId where
  texts := faithful_withObjectId _
  integers {doc} _ {name n} hfield := by
    rw [field_withObjectId (.inr (by rw [hfield]; exact JsonItem.noConfusion)), hfield]
  numbers {doc} _ {name x} hfield := by
    rw [field_withObjectId (.inr (by rw [hfield]; exact JsonItem.noConfusion)), hfield]
    rfl
  empty hname := field_withObjectId (.inl hname)

theorem recordable_shib : ∀ i ∈ Order.shibRegistry.instruments, Recordable precisionText i := by
  intro i hi
  obtain rfl := List.mem_singleton.mp hi
  refine ⟨by decide, forall_of_all (by decide), fun item hitem => ?_⟩
  obtain rfl := Option.some.inj ((Instrument.toItem_eq _).symm.trans hitem)
  rw [Fits, precisionText]
  repeat rw [text_ofList]
  decide +kernel

theorem bySymbol_shib :
    Order.shibRegistry.bySymbol .binance "SHIB-USDT" = some Order.shibInstrument := by
  rw [InstrumentRegistry.bySymbol, InstrumentType.ofSymbol, text_ofList]
  decide +kernel

/-- Both tasks run; it is listed again. -/
def wholeRun : List (Event SubscriptionRequest) :=
  [.request (.subscribe .binance "SHIB-USDT"), .write, .write, .restart, .request .list]

/-- One of them runs. -/
def tornRun : List (Event SubscriptionRequest) :=
  [.request (.subscribe .binance "SHIB-USDT"), .write]

theorem wholeRun_answers :
    Run.trace (process precisionText Order.shibRegistry withObjectId).step ⟨none, [], {}⟩
        (.restart :: wholeRun) =
      [.done true, .listed {Order.shibInstrument}] := by
  have hanswers := trace_of_run faithfulToInstruments_withObjectId recordable_shib holds_empty
    wholeRun
  rw [hanswers]
  simp [wholeRun, Run.trace, Run.next, Spec.step, Spec.after, Spec.total, Spec.found, spec,
    bySymbol_shib]

theorem tornRun_restart :
    start precisionText Order.shibRegistry
      (storeAfter precisionText Order.shibRegistry withObjectId {} tornRun) = none := by
  have hlog : Run.exec (Run.next (spec Order.shibRegistry).step) (some ⟨∅, [], 0⟩) tornRun =
      some ⟨∅, [.subscribe .binance "SHIB-USDT"], 1⟩ := by
    simp [tornRun, Run.exec, Run.next, Spec.step, Spec.total, spec, bySymbol_shib]
  obtain ⟨done, rest, hrequests, htotal, hwhole | htorn⟩ :=
    restart_of_run faithfulToInstruments_withObjectId recordable_shib holds_empty tornRun hlog
  · have htwo : (spec Order.shibRegistry).total ∅ [.subscribe .binance "SHIB-USDT"] = 2 := by
      simp [Spec.total, spec, bySymbol_shib]
    rcases List.singleton_eq_append_iff.mp hrequests with ⟨rfl, rfl⟩ | ⟨rfl, rfl⟩
    · exact absurd hwhole.2 (by simp [Spec.total])
    · exact absurd htotal (by rw [htwo]; decide)
  · exact htorn.1

end Subscriptions

end TradingEngine
