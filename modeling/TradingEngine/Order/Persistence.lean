import TradingEngine.Machinery.Run
import TradingEngine.Order.OpenOrders

/-!
# Order/Persistence — the orders in the database, across restarts

`update_order_in_db` keeps a `SavableObject` for each order it is still saving, and posts the tasks
that write its document.  The cache of these objects belongs to the process: a restart empties it,
and a filled order leaves it.  An order whose object is gone gets a second document.

The collection is a map from document ids to documents.  `OrderStore` is the process beside it, with
the last update of every order; `records_iff_tracksDocuments` says on which histories the collection
records the last updates throughout.  Without its data models the process is the `OrderManager`
(`forgets_restart`).
-/

namespace TradingEngine

/-! ## The document of an order -/

/-- The fields `Order::to_json` writes. -/
structure OrderJson where
  instrument : Option Instrument
  error : OrderError
  source : OrderSource
  lastUpdated : ℕ
  orderId : OrderId
  status : OrderStatus
  side : OrderSide
  type : OrderType
  price : ℚ
  quantity : ℚ
  filledQuantity : ℚ
  outputQuantity : ℚ
  volumnInQuoteCurrency : ℚ
  outputAsset : String
  fee : ℚ
  commissionAsset : String
  deriving DecidableEq

/-- The instruments registered when the process starts, by exchange, type and exchange symbol. -/
abbrev InstrumentList := ExchangeId → InstrumentType → String → Option Instrument

namespace Order

/-- `Order::to_json`: the commission asset stands under `output_asset` too. -/
def toJson (o : Order) : OrderJson where
  instrument := o.instrument
  error := o.error
  source := o.source
  lastUpdated := o.lastUpdated
  orderId := o.orderId
  status := o.status
  side := o.side
  type := o.type
  price := o.price
  quantity := o.quantity
  filledQuantity := o.filledQuantity
  outputQuantity := o.outputQuantity
  volumnInQuoteCurrency := o.volumnInQuoteCurrency
  outputAsset := o.commissionAsset
  fee := o.fee
  commissionAsset := o.commissionAsset

/-- `Order::from_json`: the instrument is looked up again, the filled price is not saved. -/
def fromJson (registered : InstrumentList) (data : OrderJson) : Order where
  orderId := data.orderId
  status := data.status
  instrument :=
    data.instrument.bind fun i => registered i.exchangeId i.instrumentType i.exchangeSymbol
  side := data.side
  type := data.type
  price := data.price
  quantity := data.quantity
  lastUpdated := data.lastUpdated
  filledQuantity := data.filledQuantity
  filledPrice := 0
  fee := data.fee
  outputQuantity := data.outputQuantity
  volumnInQuoteCurrency := data.volumnInQuoteCurrency
  commissionAsset := data.commissionAsset
  outputAsset := data.outputAsset
  error := data.error
  source := data.source

/-- **What a restart keeps of an order.** -/
theorem fromJson_toJson (registered : InstrumentList) (o : Order)
    (h : o.instrument.bind (fun i => registered i.exchangeId i.instrumentType i.exchangeSymbol) =
      o.instrument) :
    fromJson registered o.toJson =
      { o with filledPrice := 0, outputAsset := o.commissionAsset } := by
  rw [fromJson, toJson]
  simp only [h]

end Order

/-! ## The collection -/

/-- The id of a document. -/
abbrev DocId := ℕ

/-- A document: `{}`, or the JSON of an order. -/
abbrev Document := Option OrderJson

/-- A document read as an order; the fields `{}` does not have read as their defaults. -/
def Document.toOrder (registered : InstrumentList) (doc : Document) : Order :=
  doc.elim {} (Order.fromJson registered)

/-- The collection `order_list`.  Ids are handed out once. -/
structure OrderCollection where
  documents : AList fun _ : DocId => Document := ∅
  nextId : DocId := 0

namespace OrderCollection

variable (db : OrderCollection)

def insertOne (doc : Document) : DocId × OrderCollection :=
  (db.nextId, { documents := db.documents.insert db.nextId doc, nextId := db.nextId + 1 })

def countDocuments (id : DocId) : ℕ := if id ∈ db.documents then 1 else 0

def replaceOne (id : DocId) (doc : Document) : OrderCollection :=
  if id ∈ db.documents then { db with documents := db.documents.insert id doc } else db

def deleteOne (id : DocId) : OrderCollection := { db with documents := db.documents.erase id }

/-- Some document of the collection is of the order. -/
def HasDocument (id : OrderId) : Prop :=
  ∃ entry ∈ db.documents.entries, entry.2.map OrderJson.orderId = some id

instance (id : OrderId) : Decidable (db.HasDocument id) :=
  inferInstanceAs (Decidable (∃ entry ∈ db.documents.entries, _))

variable {db} {id : OrderId}

theorem hasDocument_iff : db.HasDocument id ↔
    ∃ d json, db.documents.lookup d = some (some json) ∧ json.orderId = id := by
  constructor
  · rintro ⟨⟨d, doc⟩, hmem, hid⟩
    obtain ⟨json, hdoc, hjson⟩ := Option.map_eq_some_iff.mp hid
    refine ⟨d, json, ?_, hjson⟩
    rw [← hdoc]
    exact AList.mem_lookup_iff.mpr hmem
  · rintro ⟨d, json, hlookup, hjson⟩
    exact ⟨⟨d, some json⟩, AList.mem_lookup_iff.mp hlookup, congrArg some hjson⟩

theorem mem_of_lookup {d : DocId} {doc : Document} (h : db.documents.lookup d = some doc) :
    d ∈ db.documents := AList.lookup_isSome.mp (by rw [h]; rfl)

/-- **What is claimed of the collection**: an order has one document at most, which is the JSON of
its last update, and a canceled order has none. -/
structure Records (db : OrderCollection) (latest : OrderId → Option Order) : Prop where
  unique : ∀ {d d' json json'}, db.documents.lookup d = some (some json) →
    db.documents.lookup d' = some (some json') → json.orderId = json'.orderId → d = d'
  isLatest : ∀ {d doc}, db.documents.lookup d = some doc →
    ∃ o, doc = some o.toJson ∧ latest o.orderId = some o
  canceledGone : ∀ {id : OrderId} {o : Order}, latest id = some o → o.status = .canceled →
    ¬ db.HasDocument id

end OrderCollection

/-! ## The tasks that write a document -/

/-- `DataModel`: the id of its document, `none` for `"-1"`. -/
structure DataModel where
  id : Option DocId := none
  hasCheckedAvailable : Bool := false
  deriving DecidableEq

namespace DataModel

variable (m : DataModel) (db : OrderCollection)

/-- `save_to_DB`.  Whether the document is there is asked once. -/
def saveToDb (doc : Document) : DataModel × OrderCollection :=
  match m.id with
  | none => ({ m with id := some (db.insertOne doc).1 }, (db.insertOne doc).2)
  | some id =>
    if m.hasCheckedAvailable = false then
      if db.countDocuments id = 0 then
        ({ id := some (db.insertOne doc).1, hasCheckedAvailable := true }, (db.insertOne doc).2)
      else ({ m with hasCheckedAvailable := true }, db.replaceOne id doc)
    else (m, db.replaceOne id doc)

/-- `remove`.  `"-1"` is no object id: the driver throws. -/
def remove : Option (DataModel × OrderCollection) :=
  m.id.map fun id => ({ m with id := none }, db.deleteOne id)

end DataModel

/-- A task posted by a `SavableObject`. -/
inductive DbTask
  | init
  | update (data : OrderJson)
  | remove

namespace DbTask

/-- A task on the data model of its object.  An exception leaves the coroutine through
`unhandled_exception`, which terminates the process: there is no data model then. -/
def run (m : DataModel) (db : OrderCollection) : DbTask → Option DataModel × OrderCollection
  | .init =>
    -- the assignment copies the id, not `m_has_checked_available`
    let created := ({} : DataModel).saveToDb db none
    (some { m with id := created.1.id }, created.2)
  | .update data =>
    let saved := m.saveToDb db (some data)
    (some saved.1, saved.2)
  | .remove =>
    match m.remove db with
    | none => (none, db)
    | some removed => (some removed.1, removed.2)

/-- Tasks in the order they were posted. -/
def runAll : List DbTask → DataModel → OrderCollection → Option DataModel × OrderCollection
  | [], m, db => (some m, db)
  | task :: tasks, m, db =>
    match task.run m db with
    | (none, db') => (none, db')
    | (some m', db') => runAll tasks m' db'

end DbTask

/-! ## The process -/

/-- `SavableObject<Order>`. -/
structure SavableOrder where
  object : Order := {}
  dataModel : DataModel := {}

/-- What a process knows: `m_order_list` and `m_order_db_cache`. -/
structure OrderProcess where
  orderList : OrderMap := ∅
  orderDbCache : AList (fun _ : OrderId => SavableOrder) := ∅

namespace OrderProcess

variable (p : OrderProcess) (db : OrderCollection)

/-- `init`: `load_objects_map` on what the query found. -/
def load (registered : InstrumentList) (found : List Document) : OrderProcess where
  orderList := OrderManager.loadObjectsMap (found.map (Document.toOrder registered))

/-- `handle_update_order`, which reads the order list only. -/
def handleUpdateOrder (order : Order) : OrderProcess × Order :=
  let handled := ({ orderList := p.orderList } : OrderManager).handleUpdateOrder order
  ({ p with orderList := handled.1.orderList }, handled.2)

/-- The object of an order, as it is or as it is created. -/
def savedOrder (id : OrderId) : SavableOrder := (p.orderDbCache.lookup id).getD {}

/-- What the creation of an object posts. -/
def initTasks (id : OrderId) : List DbTask := if id ∈ p.orderDbCache then [] else [.init]

/-- `update_order_in_db` and the tasks it posts. -/
def updateOrderInDb (order : Order) : Option OrderProcess × OrderCollection :=
  if order.status = .rejected then
    (some { p with orderList := p.orderList.erase order.orderId }, db)
  else
    let saved := p.savedOrder order.orderId
    if order.status = .canceled then
      match DbTask.runAll (p.initTasks order.orderId ++ [.remove]) saved.dataModel db with
      | (none, db') => (none, db')
      | (some m, db') =>
        -- the id is the one inside the object
        let id := saved.object.orderId
        let cache := p.orderDbCache.insert order.orderId { saved with dataModel := m }
        (some { orderDbCache := cache.erase id, orderList := p.orderList.erase id }, db')
    else
      let tasks := p.initTasks order.orderId ++ [.update order.toJson]
      match DbTask.runAll tasks saved.dataModel db with
      | (none, db') => (none, db')
      | (some m, db') =>
        let cache := p.orderDbCache.insert order.orderId { object := order, dataModel := m }
        let cache := if order.status = .filled then cache.erase order.orderId else cache
        (some { p with orderDbCache := cache }, db')

end OrderProcess

/-! ## What the tasks leave behind -/

namespace OrderCollection

variable {db db' : OrderCollection} {d : DocId} {data : OrderJson}

/-- Ids are handed out in order. -/
def Fresh (db : OrderCollection) : Prop := ∀ d ∈ db.documents, d < db.nextId

theorem Fresh.lookup_nextId (h : db.Fresh) : db.documents.lookup db.nextId = none :=
  AList.lookup_eq_none.mpr fun hmem => lt_irrefl _ (h _ hmem)

/-- The data model stands for the document of the order; without an id it stands for none. -/
def Owns (db : OrderCollection) (id : OrderId) (m : DataModel) : Prop :=
  match m.id with
  | none => ¬ db.HasDocument id
  | some d => ∃ json, db.documents.lookup d = some (some json) ∧ json.orderId = id

/-- A document has been written: a new one, or one of the same order. -/
structure Written (db db' : OrderCollection) (d : DocId) (data : OrderJson) : Prop where
  self : db'.documents.lookup d = some (some data)
  other : ∀ {d'}, d' ≠ d → db'.documents.lookup d' = db.documents.lookup d'
  target : (d = db.nextId ∧ db'.nextId = db.nextId + 1) ∨
    db'.nextId = db.nextId ∧
      ∃ json, db.documents.lookup d = some (some json) ∧ json.orderId = data.orderId

/-- The documents of an order are the same in two collections. -/
def SameFor (id : OrderId) (db db' : OrderCollection) : Prop :=
  ∀ d json, OrderJson.orderId json = id →
    (db'.documents.lookup d = some (some json) ↔ db.documents.lookup d = some (some json))

variable {id : OrderId}

theorem SameFor.hasDocument_iff (h : SameFor id db db') :
    db'.HasDocument id ↔ db.HasDocument id := by
  rw [OrderCollection.hasDocument_iff, OrderCollection.hasDocument_iff]
  exact exists_congr fun d => exists_congr fun json =>
    ⟨fun ⟨hlookup, hid⟩ => ⟨(h d json hid).mp hlookup, hid⟩,
      fun ⟨hlookup, hid⟩ => ⟨(h d json hid).mpr hlookup, hid⟩⟩

/-- **The frame rule**: a data model stands for the same document in both. -/
theorem SameFor.owns (h : SameFor id db db') {m : DataModel} (hown : db.Owns id m) :
    db'.Owns id m := by
  rw [Owns] at hown ⊢
  cases hm : m.id with
  | none =>
    rw [hm] at hown
    exact mt h.hasDocument_iff.mp hown
  | some d =>
    rw [hm] at hown
    obtain ⟨json, hlookup, hid⟩ := hown
    exact ⟨json, (h d json hid).mpr hlookup, hid⟩

/-- **A write touches the documents of one order only.** -/
theorem Written.sameFor (h : Written db db' d data) (hfresh : db.Fresh)
    (hid : id ≠ data.orderId) : SameFor id db db' := by
  intro d' json hjson
  by_cases hd : d' = d
  · refine iff_of_false (fun hlookup => ?_) (fun hlookup => ?_)
    · rw [hd, h.self, Option.some.injEq, Option.some.injEq] at hlookup
      exact hid (hlookup ▸ hjson.symm)
    · rw [hd] at hlookup
      rcases h.target with ⟨rfl, -⟩ | ⟨-, json', hown, hjson'⟩
      · rw [hfresh.lookup_nextId] at hlookup
        exact Option.some_ne_none _ hlookup.symm
      · rw [hown, Option.some.injEq, Option.some.injEq] at hlookup
        exact hid (hjson.symm.trans (hlookup ▸ hjson'))
  · rw [h.other hd]

/-- The ids stay below the next one. -/
theorem Written.fresh (h : Written db db' d data) (hfresh : db.Fresh) : db'.Fresh := by
  intro d' hd'
  have hold : d' ≠ d → d' ∈ db.documents := by
    intro hd
    rw [← AList.lookup_isSome, ← h.other hd]
    exact AList.lookup_isSome.mpr hd'
  rcases h.target with ⟨hd, hnext⟩ | ⟨hnext, json, hown, -⟩
  · rw [hnext, Nat.lt_succ_iff]
    by_cases hd'' : d' = d
    · exact (hd''.trans hd).le
    · exact (hfresh d' (hold hd'')).le
  · rw [hnext]
    by_cases hd'' : d' = d
    · exact hfresh d' (hd'' ▸ mem_of_lookup hown)
    · exact hfresh d' (hold hd'')

theorem written_insertOne (db : OrderCollection) (data : OrderJson) :
    Written db (db.insertOne (some data)).2 db.nextId data where
  self := AList.lookup_insert _
  other h := AList.lookup_insert_ne h
  target := Or.inl ⟨rfl, rfl⟩

theorem written_replaceOne {json : OrderJson} (h : db.documents.lookup d = some (some json))
    (hid : json.orderId = data.orderId) : Written db (db.replaceOne d (some data)) d data := by
  rw [replaceOne, if_pos (mem_of_lookup h)]
  exact ⟨AList.lookup_insert _, fun h => AList.lookup_insert_ne h, Or.inr ⟨rfl, json, h, hid⟩⟩

end OrderCollection

namespace DataModel

open OrderCollection

variable {m : DataModel} {db : OrderCollection} {data : OrderJson}

/-- **Saving writes the document the model stands for**, or a new one if the order has none. -/
theorem written_saveToDb (hfresh : db.Fresh) (h : db.Owns data.orderId m) :
    ∃ d, (m.saveToDb db (some data)).1.id = some d ∧
      Written db (m.saveToDb db (some data)).2 d data ∧
      (d = db.nextId → ¬ db.HasDocument data.orderId) := by
  rw [saveToDb]
  cases hm : m.id with
  | none =>
    rw [Owns, hm] at h
    exact ⟨db.nextId, rfl, written_insertOne db data, fun _ => h⟩
  | some d =>
    rw [Owns, hm] at h
    obtain ⟨json, hlookup, hid⟩ := h
    have hne : d ≠ db.nextId := (hfresh d (mem_of_lookup hlookup)).ne
    have hcount : db.countDocuments d ≠ 0 := by
      rw [countDocuments, if_pos (mem_of_lookup hlookup)]
      exact one_ne_zero
    have hwritten := written_replaceOne hlookup hid
    by_cases hchecked : m.hasCheckedAvailable = false
    · simp only [hchecked, hcount, if_true, if_false]
      exact ⟨d, rfl, hwritten, fun hd => absurd hd hne⟩
    · simp only [hchecked]
      exact ⟨d, hm, hwritten, fun hd => absurd hd hne⟩

end DataModel

namespace DbTask

open OrderCollection

variable {m : DataModel} {db : OrderCollection} {data : OrderJson}

/-- A new object: `{}` is inserted, and replaced by the order. -/
theorem runAll_init_update (db : OrderCollection) (data : OrderJson) :
    ∃ m' db', runAll [.init, .update data] {} db = (some m', db') ∧
      m'.id = some db.nextId ∧ Written db db' db.nextId data := by
  have hmem : db.nextId ∈ (db.insertOne none).2.documents :=
    (AList.mem_insert _).mpr (Or.inl rfl)
  refine ⟨{ id := some db.nextId, hasCheckedAvailable := true },
    (db.insertOne none).2.replaceOne db.nextId (some data), ?_, rfl, ?_⟩
  · simp [runAll, run, DataModel.saveToDb, countDocuments, insertOne]
  · rw [replaceOne, if_pos hmem]
    refine ⟨AList.lookup_insert _, fun h => ?_, Or.inl ⟨rfl, rfl⟩⟩
    exact (AList.lookup_insert_ne h).trans (AList.lookup_insert_ne h)

/-- A new object that is removed at once: no document changes. -/
theorem runAll_init_remove (h : db.Fresh) :
    ∃ m' db', runAll [.init, .remove] {} db = (some m', db') ∧ m'.id = none ∧
      db'.nextId = db.nextId + 1 ∧ ∀ d, db'.documents.lookup d = db.documents.lookup d := by
  refine ⟨{}, (db.insertOne none).2.deleteOne db.nextId, rfl, rfl, rfl, fun d => ?_⟩
  by_cases hd : d = db.nextId
  · rw [hd, h.lookup_nextId]
    exact AList.lookup_erase _ _
  · exact (AList.lookup_erase_ne hd).trans (AList.lookup_insert_ne hd)

end DbTask

namespace OrderProcess

open OrderCollection

variable {p : OrderProcess} {db : OrderCollection} {order : Order}

/-- Every cached object stands for the document of its order. -/
def OwnsDocuments (p : OrderProcess) (db : OrderCollection) : Prop :=
  ∀ id saved, p.orderDbCache.lookup id = some saved → db.Owns id saved.dataModel

theorem lookup_of_mem {id : OrderId} (h : id ∈ p.orderDbCache) :
    p.orderDbCache.lookup id = some (p.savedOrder id) := by
  obtain ⟨saved, hsaved⟩ := Option.isSome_iff_exists.mp (AList.lookup_isSome.mpr h)
  rw [savedOrder, hsaved, Option.getD_some]

theorem savedOrder_of_not_mem {id : OrderId} (h : id ∉ p.orderDbCache) : p.savedOrder id = {} := by
  rw [savedOrder, AList.lookup_eq_none.mpr h, Option.getD_none]

/-- What is found behind an insertion is the new object, or was there before. -/
theorem lookup_of_lookup_insert {id i : OrderId} {new saved : SavableOrder}
    (h : (p.orderDbCache.insert i new).lookup id = some saved) :
    if id = i then new = saved else p.orderDbCache.lookup id = some saved := by
  by_cases hid : id = i
  · rw [hid, AList.lookup_insert, Option.some.injEq] at h
    rwa [if_pos hid]
  · rw [AList.lookup_insert_ne hid] at h
    rwa [if_neg hid]

/-- **An update that is kept writes one document**, and the object of the order stands for it. -/
theorem updateOrderInDb_kept (hfresh : db.Fresh) (howns : p.OwnsDocuments db)
    (hrej : order.status ≠ .rejected) (hcan : order.status ≠ .canceled) :
    ∃ p' db' d, p.updateOrderInDb db order = (some p', db') ∧ Written db db' d order.toJson ∧
      (if order.orderId ∈ p.orderDbCache then d = db.nextId → ¬ db.HasDocument order.orderId
        else d = db.nextId) ∧
      ∀ id saved, p'.orderDbCache.lookup id = some saved →
        if id = order.orderId then saved.dataModel.id = some d
        else p.orderDbCache.lookup id = some saved := by
  obtain ⟨m, db', d, hrun, hm, hwritten, hd⟩ : ∃ m db' d,
      DbTask.runAll (p.initTasks order.orderId ++ [.update order.toJson])
        (p.savedOrder order.orderId).dataModel db = (some m, db') ∧ m.id = some d ∧
      Written db db' d order.toJson ∧
      (if order.orderId ∈ p.orderDbCache then d = db.nextId → ¬ db.HasDocument order.orderId
        else d = db.nextId) := by
    by_cases hmem : order.orderId ∈ p.orderDbCache
    · have hown : db.Owns order.toJson.orderId _ := howns _ _ (lookup_of_mem hmem)
      obtain ⟨d, hid, hwritten, hnew⟩ := DataModel.written_saveToDb hfresh hown
      rw [initTasks, if_pos hmem]
      exact ⟨_, _, d, rfl, hid, hwritten, by rw [if_pos hmem]; exact hnew⟩
    · obtain ⟨m, db', hrun, hid, hwritten⟩ := DbTask.runAll_init_update db order.toJson
      rw [initTasks, if_neg hmem, savedOrder_of_not_mem hmem]
      exact ⟨m, db', db.nextId, hrun, hid, hwritten, by rw [if_neg hmem]⟩
  rw [updateOrderInDb, if_neg hrej]
  simp only [if_neg hcan, hrun]
  refine ⟨_, db', d, rfl, hwritten, hd, fun id saved hlookup => ?_⟩
  have hinsert : (p.orderDbCache.insert order.orderId
      { object := order, dataModel := m }).lookup id = some saved := by
    by_cases hfilled : order.status = .filled
    · rw [if_pos hfilled] at hlookup
      exact OrderManager.lookup_of_lookup_erase hlookup
    · rwa [if_neg hfilled] at hlookup
  have hfound := lookup_of_lookup_insert hinsert
  split_ifs at hfound ⊢ with hid
  · rw [← hfound]
    exact hm
  · exact hfound

/-- **A cancellation deletes the document its object stands for**, and no other.  Where the object
has none the process may end, with the collection as it was. -/
theorem updateOrderInDb_canceled (hfresh : db.Fresh) (hcan : order.status = .canceled) :
    ∃ p' db', p.updateOrderInDb db order = (p', db') ∧ db.nextId ≤ db'.nextId ∧
      (∀ d, db'.documents.lookup d =
        if (p.savedOrder order.orderId).dataModel.id = some d then none
        else db.documents.lookup d) ∧
      ∀ q ∈ p', ∀ id saved, q.orderDbCache.lookup id = some saved →
        if id = order.orderId then saved.dataModel.id = none
        else p.orderDbCache.lookup id = some saved := by
  have hcache : ∀ {m : DataModel} {i id : OrderId} {saved : SavableOrder}, m.id = none →
      ((p.orderDbCache.insert order.orderId
        { p.savedOrder order.orderId with dataModel := m }).erase i).lookup id = some saved →
      if id = order.orderId then saved.dataModel.id = none
      else p.orderDbCache.lookup id = some saved := by
    intro m i id saved hm hlookup
    have hfound := lookup_of_lookup_insert (OrderManager.lookup_of_lookup_erase hlookup)
    split_ifs at hfound ⊢ with hid
    · rw [← hfound]
      exact hm
    · exact hfound
  rw [updateOrderInDb, if_neg (by rw [hcan]; decide)]
  simp only [if_pos hcan]
  by_cases hmem : order.orderId ∈ p.orderDbCache
  · rw [initTasks, if_pos hmem, List.nil_append]
    cases hm : (p.savedOrder order.orderId).dataModel.id with
    | none =>
      simp only [DbTask.runAll, DbTask.run, DataModel.remove, hm, Option.map_none]
      exact ⟨none, db, rfl, le_rfl, fun d => rfl, fun q hq => absurd hq (Option.not_mem_none q)⟩
    | some d₀ =>
      simp only [DbTask.runAll, DbTask.run, DataModel.remove, hm, Option.map_some]
      refine ⟨_, _, rfl, le_rfl, fun d => ?_, fun q hq id saved hlookup => ?_⟩
      · by_cases hd : d₀ = d
        · rw [if_pos (congrArg some hd), ← hd]
          exact AList.lookup_erase _ _
        · rw [if_neg fun h => hd (Option.some.inj h)]
          exact AList.lookup_erase_ne (Ne.symm hd)
      · obtain rfl := Option.some.inj hq
        exact hcache rfl hlookup
  · obtain ⟨m, db', hrun, hm, hnext, hdocs⟩ := DbTask.runAll_init_remove hfresh
    rw [initTasks, if_neg hmem]
    have hmodel : (p.savedOrder order.orderId).dataModel = {} := by
      rw [savedOrder_of_not_mem hmem]
    simp only [hmodel, List.singleton_append, hrun]
    refine ⟨_, db', rfl, hnext ▸ Nat.le_succ _, fun d => hdocs d, fun q hq id saved hlookup => ?_⟩
    obtain rfl := Option.some.inj hq
    exact hcache hm hlookup

end OrderProcess

/-! ## The manager without its documents -/

namespace OrderProcess

variable {p p' : OrderProcess} {m : OrderManager} {db db' : OrderCollection} {order : Order}

/-- The process without its data models is the manager. -/
structure Forgets (p : OrderProcess) (m : OrderManager) : Prop where
  orderList : m.orderList = p.orderList
  orderDbCache : ∀ id, m.orderDbCache.lookup id = (p.orderDbCache.lookup id).map (·.object)

theorem forgets_load (registered : InstrumentList) (found : List Document) :
    (load registered found).Forgets
      (.init (OrderManager.loadObjectsMap (found.map (Document.toOrder registered)))) :=
  ⟨rfl, fun _ => rfl⟩

theorem Forgets.savedOrder (h : p.Forgets m) (id : OrderId) :
    m.savedOrder id = (p.savedOrder id).object := by
  rw [OrderManager.savedOrder, h.orderDbCache, OrderProcess.savedOrder]
  cases p.orderDbCache.lookup id <;> rfl

theorem Forgets.mem (h : p.Forgets m) (id : OrderId) :
    id ∈ m.orderDbCache ↔ id ∈ p.orderDbCache := by
  rw [← AList.lookup_isSome, ← AList.lookup_isSome, h.orderDbCache, Option.isSome_map]

/-- Two caches agree after the same insertion. -/
theorem Forgets.lookup_insert (h : p.Forgets m) (id i : OrderId) (saved : SavableOrder) :
    (m.orderDbCache.insert id saved.object).lookup i =
      ((p.orderDbCache.insert id saved).lookup i).map (·.object) := by
  by_cases hi : i = id
  · rw [hi, AList.lookup_insert, AList.lookup_insert, Option.map_some]
  · rw [AList.lookup_insert_ne hi, AList.lookup_insert_ne hi, h.orderDbCache]

/-- Two caches that agree do so after the same erasure. -/
theorem lookup_erase_map {cache : AList fun _ : OrderId => SavableOrder} {objects : OrderMap}
    (h : ∀ i, objects.lookup i = (cache.lookup i).map (·.object)) (id i : OrderId) :
    (objects.erase id).lookup i = ((cache.erase id).lookup i).map (·.object) := by
  by_cases hi : i = id
  · rw [hi, AList.lookup_erase, AList.lookup_erase, Option.map_none]
  · rw [AList.lookup_erase_ne hi, AList.lookup_erase_ne hi, h]

/-- What is stored and posted does not depend on the cache. -/
theorem Forgets.handleUpdateOrder (h : p.Forgets m) (order : Order) :
    (p.handleUpdateOrder order).1.Forgets (m.handleUpdateOrder order).1 ∧
      (p.handleUpdateOrder order).2 = (m.handleUpdateOrder order).2 := by
  have hfound : (({ orderList := p.orderList } : OrderManager).getOrderById order.orderId).2 =
        (m.getOrderById order.orderId).2 ∧
      (({ orderList := p.orderList } : OrderManager).getOrderById order.orderId).1.orderList =
        (m.getOrderById order.orderId).1.orderList := by
    rw [OrderManager.getOrderById, OrderManager.getOrderById, h.orderList]
    cases p.orderList.lookup order.orderId with
    | none => exact ⟨rfl, rfl⟩
    | some current => exact ⟨rfl, h.orderList.symm⟩
  obtain ⟨hcurrent, hlist⟩ := hfound
  rw [OrderProcess.handleUpdateOrder, OrderManager.handleUpdateOrder,
    OrderManager.handleUpdateOrder, hcurrent, hlist]
  exact ⟨⟨rfl, fun id => by rw [OrderManager.getOrderById_orderDbCache, h.orderDbCache]⟩, rfl⟩

/-- **The database tasks of the process are the manager's**, where they do not end it. -/
theorem Forgets.updateOrderInDb (h : p.Forgets m)
    (hrun : p.updateOrderInDb db order = (some p', db')) :
    p'.Forgets (m.updateOrderInDb order) := by
  -- whatever model the object is cached with, the manager sees the object
  have hcached : ∀ model i, (m.withSaved order.orderId).orderDbCache.lookup i =
      ((p.orderDbCache.insert order.orderId
        { p.savedOrder order.orderId with dataModel := model }).lookup i).map (·.object) := by
    intro model i
    rw [← h.lookup_insert, ← h.savedOrder, OrderManager.withSaved]
    by_cases hmem : order.orderId ∈ m.orderDbCache
    · rw [if_pos hmem]
      by_cases hi : i = order.orderId
      · rw [hi, AList.lookup_insert, h.savedOrder, h.orderDbCache,
          lookup_of_mem ((h.mem _).mp hmem), Option.map_some]
      · rw [AList.lookup_insert_ne hi]
    · rw [if_neg hmem, OrderManager.savedOrder, AList.lookup_eq_none.mpr hmem, Option.getD_none]
  rw [OrderProcess.updateOrderInDb] at hrun
  rw [OrderManager.updateOrderInDb]
  by_cases hrej : order.status = .rejected
  · rw [if_pos hrej, Prod.mk.injEq, Option.some.injEq] at hrun
    rw [if_pos hrej, ← hrun.1, h.orderList]
    exact ⟨rfl, h.orderDbCache⟩
  rw [if_neg hrej] at hrun ⊢
  by_cases hcan : order.status = .canceled
  · simp only [if_pos hcan] at hrun ⊢
    split at hrun
    · exact absurd (Prod.mk.inj hrun).1.symm (Option.some_ne_none p')
    · rename_i model _ _
      rw [Prod.mk.injEq, Option.some.injEq] at hrun
      rw [← hrun.1, OrderManager.savedOrder_withSaved, h.savedOrder,
        OrderManager.withSaved_orderList, h.orderList]
      exact ⟨rfl, lookup_erase_map (hcached model) _⟩
  · simp only [if_neg hcan] at hrun ⊢
    split at hrun
    · exact absurd (Prod.mk.inj hrun).1.symm (Option.some_ne_none p')
    · rename_i model _ _
      rw [Prod.mk.injEq, Option.some.injEq] at hrun
      have hinsert : ∀ i, ((m.withSaved order.orderId).orderDbCache.insert order.orderId
          order).lookup i = ((p.orderDbCache.insert order.orderId
            { object := order, dataModel := model }).lookup i).map (·.object) := by
        intro i
        by_cases hi : i = order.orderId
        · rw [hi, AList.lookup_insert, AList.lookup_insert, Option.map_some]
        · have hother := hcached model i
          rw [AList.lookup_insert_ne hi] at hother ⊢
          rw [AList.lookup_insert_ne hi, hother]
      by_cases hfilled : order.status = .filled
      · simp only [if_pos hfilled] at hrun ⊢
        rw [← hrun.1, OrderManager.withSaved_orderList, h.orderList]
        exact ⟨rfl, lookup_erase_map hinsert _⟩
      · simp only [if_neg hfilled] at hrun ⊢
        rw [← hrun.1, OrderManager.withSaved_orderList, h.orderList]
        exact ⟨rfl, hinsert⟩

end OrderProcess

/-! ## The collection after a write, and after a deletion -/

namespace OrderCollection

variable {db db' : OrderCollection} {latest : OrderId → Option Order} {id : OrderId} {o : Order}

/-- Writing the last update of an order keeps the records, if it goes to the order's own document or
the order has none. -/
theorem Records.written (h : db.Records latest) {d : DocId}
    (hwritten : Written db db' d o.toJson) (hnew : d = db.nextId → ¬ db.HasDocument o.orderId)
    (hcan : o.status ≠ .canceled) : db'.Records (Function.update latest o.orderId (some o)) := by
  -- the documents of the order are all the one written
  have honly : ∀ {d' json}, db'.documents.lookup d' = some (some json) →
      json.orderId = o.orderId → d' = d := by
    intro d' json hlookup hid
    by_contra hne
    rw [hwritten.other hne] at hlookup
    rcases hwritten.target with ⟨hd, -⟩ | ⟨-, json', hown, hid'⟩
    · exact hnew hd (hasDocument_iff.mpr ⟨d', json, hlookup, hid⟩)
    · exact hne (h.unique hlookup hown (hid.trans hid'.symm))
  refine ⟨fun {d₁ d₂ json₁ json₂} h₁ h₂ hid => ?_, fun {d' doc} hlookup => ?_,
    fun {id' o'} hlatest hcan' => ?_⟩
  · by_cases h₁id : json₁.orderId = o.orderId
    · rw [honly h₁ h₁id, honly h₂ (hid ▸ h₁id)]
    · have hne : ∀ {d' json}, db'.documents.lookup d' = some (some json) →
          json.orderId ≠ o.orderId → d' ≠ d := by
        rintro d' json hlookup hjson rfl
        rw [hwritten.self, Option.some.injEq, Option.some.injEq] at hlookup
        exact hjson (hlookup ▸ rfl)
      rw [hwritten.other (hne h₁ h₁id)] at h₁
      rw [hwritten.other (hne h₂ (hid ▸ h₁id))] at h₂
      exact h.unique h₁ h₂ hid
  · by_cases hd : d' = d
    · rw [hd, hwritten.self, Option.some.injEq] at hlookup
      exact ⟨o, hlookup.symm, Function.update_self _ _ _⟩
    · have hlookup' := hlookup
      rw [hwritten.other hd] at hlookup'
      obtain ⟨o', rfl, hlatest⟩ := h.isLatest hlookup'
      have hid : o'.orderId ≠ o.orderId := fun hid => hd (honly hlookup hid)
      refine ⟨o', rfl, ?_⟩
      rwa [Function.update_of_ne hid]
  · rintro hdoc
    obtain ⟨d', json, hlookup, hid⟩ := hasDocument_iff.mp hdoc
    by_cases hid' : id' = o.orderId
    · rw [hid', Function.update_self, Option.some.injEq] at hlatest
      exact hcan (hlatest ▸ hcan')
    · rw [Function.update_of_ne hid'] at hlatest
      have hd : d' ≠ d := by
        rintro rfl
        rw [hwritten.self, Option.some.injEq, Option.some.injEq] at hlookup
        exact hid' (hid ▸ hlookup ▸ rfl)
      rw [hwritten.other hd] at hlookup
      exact h.canceledGone hlatest hcan' (hasDocument_iff.mpr ⟨d', json, hlookup, hid⟩)

/-- Where the order has no document left, whatever its last update is, the records are kept. -/
theorem Records.gone (h : db.Records latest)
    (hsub : ∀ {d doc}, db'.documents.lookup d = some doc → db.documents.lookup d = some doc)
    (hgone : ¬ db'.HasDocument o.orderId) :
    db'.Records (Function.update latest o.orderId (some o)) := by
  refine ⟨fun h₁ h₂ => h.unique (hsub h₁) (hsub h₂), fun {d doc} hlookup => ?_,
    fun {id' o'} hlatest hcan hdoc => ?_⟩
  · obtain ⟨o', rfl, hlatest⟩ := h.isLatest (hsub hlookup)
    refine ⟨o', rfl, ?_⟩
    rwa [Function.update_of_ne]
    exact fun hid => hgone (hasDocument_iff.mpr ⟨d, o'.toJson, hlookup, hid⟩)
  · by_cases hid' : id' = o.orderId
    · exact hgone (hid' ▸ hdoc)
    · rw [Function.update_of_ne hid'] at hlatest
      obtain ⟨d, json, hlookup, hid⟩ := hasDocument_iff.mp hdoc
      exact h.canceledGone hlatest hcan (hasDocument_iff.mpr ⟨d, json, hsub hlookup, hid⟩)

end OrderCollection

/-! ## The process and the collection -/

/-- The process, or `none` after `std::terminate`; the collection; and the last update of each
order, as it was stored and posted to the database. -/
structure OrderStore where
  process : Option OrderProcess := some {}
  collection : OrderCollection := {}
  latest : OrderId → Option Order := fun _ => none

/-- An update of an order, with its database tasks; or a restart, with the instruments registered
then and the documents the query returns. -/
inductive PersistenceEvent
  | update (order : Order)
  | restart (registered : InstrumentList) (found : List Document)

namespace OrderStore

open OrderCollection OrderProcess

def step (s : OrderStore) : PersistenceEvent → OrderStore
  | .update order =>
    match s.process with
    | none => s
    | some p =>
      let handled := p.handleUpdateOrder order
      let written := handled.1.updateOrderInDb s.collection handled.2
      { process := written.1
        collection := written.2
        latest := Function.update s.latest order.orderId (some handled.2) }
  | .restart registered found => { s with process := some (.load registered found) }

/-- The query finds every document, in some order. -/
def Legal (s : OrderStore) : PersistenceEvent → Prop
  | .update _ => True
  | .restart _ found => found.Perm (s.collection.documents.entries.map (·.2))

instance (s : OrderStore) : ∀ e, Decidable (s.Legal e)
  | .update _ => inferInstanceAs (Decidable True)
  | .restart _ found => inferInstanceAs (Decidable (found.Perm _))

/-- **The condition.**  An update of an order that has a document finds its object in the cache, and
does not reject the order. -/
def TracksDocument (s : OrderStore) : PersistenceEvent → Prop
  | .update order =>
    ∀ p ∈ s.process, s.collection.HasDocument order.orderId →
      order.orderId ∈ p.orderDbCache ∧ order.status ≠ .rejected
  | .restart _ _ => True

instance (s : OrderStore) : ∀ e, Decidable (s.TracksDocument e)
  | .update _ => inferInstanceAs (Decidable (∀ p ∈ s.process, _))
  | .restart _ _ => inferInstanceAs (Decidable True)

/-- The claim about the state a step leads to. -/
def RecordsAfter (s : OrderStore) (e : PersistenceEvent) : Prop :=
  (s.step e).collection.Records (s.step e).latest

/-- The invariant of the runs whose steps all meet the condition. -/
structure Sound (s : OrderStore) : Prop where
  records : s.collection.Records s.latest
  fresh : s.collection.Fresh
  owns : ∀ p ∈ s.process, p.OwnsDocuments s.collection
  kept : ∀ {d json}, s.collection.documents.lookup d = some (some json) →
    json.status ≠ .rejected ∧ json.status ≠ .canceled

variable {s : OrderStore} {order : Order} {p : OrderProcess}

theorem sound_init : ({} : OrderStore).Sound where
  records := ⟨fun h => absurd h.symm (Option.some_ne_none _),
    fun h => absurd h.symm (Option.some_ne_none _), fun h => absurd h.symm (Option.some_ne_none _)⟩
  fresh d hd := absurd hd (AList.notMem_empty d)
  owns := by
    rintro p hp id saved hlookup
    obtain rfl := Option.some.inj hp
    exact absurd hlookup.symm (Option.some_ne_none saved)
  kept h := absurd h.symm (Option.some_ne_none _)

/-- A fill is not stored as a rejection or a cancellation, and what is no fill keeps its status. -/
theorem status_handleUpdateOrder (p : OrderProcess) (order : Order) {status : OrderStatus}
    (h : status = .rejected ∨ status = .canceled) :
    (p.handleUpdateOrder order).2.status = status ↔ order.status = status := by
  cases hfill : order.isFill with
  | false =>
    have hsame : (p.handleUpdateOrder order).2 = order :=
      OrderManager.mergeUpdate_of_not_isFill hfill _
    rw [hsame]
  | true =>
    have hmerged : (p.handleUpdateOrder order).2.isFill = true :=
      OrderManager.mergeUpdate_isFill hfill _
    have hno : ∀ o : Order, o.isFill = true → o.status ≠ status := by
      rintro o ho rfl
      rcases h with h | h <;> simp [Order.isFill, h] at ho
    exact iff_of_false (hno _ hmerged) (hno _ hfill)

@[simp] theorem handleUpdateOrder_orderId (p : OrderProcess) (order : Order) :
    (p.handleUpdateOrder order).2.orderId = order.orderId :=
  OrderManager.handleUpdateOrder_orderId _ _

/-- Stored orders stay under their own names through a database task. -/
theorem ownsDocuments_handleUpdateOrder (h : p.OwnsDocuments s.collection) :
    (p.handleUpdateOrder order).1.OwnsDocuments s.collection := h

/-- An update that is kept and meets the condition. -/
theorem sound_kept (h : s.Sound) (hp : s.process = some p) (hok : s.TracksDocument (.update order))
    (hrej : order.status ≠ .rejected) (hcan : order.status ≠ .canceled) :
    (s.step (.update order)).Sound := by
  have hid := handleUpdateOrder_orderId p order
  have hrej' := mt (status_handleUpdateOrder p order (Or.inl rfl)).mp hrej
  have hcan' := mt (status_handleUpdateOrder p order (Or.inr rfl)).mp hcan
  have howns : (p.handleUpdateOrder order).1.OwnsDocuments s.collection :=
    ownsDocuments_handleUpdateOrder (h.owns p hp)
  obtain ⟨p', db', d, hrun, hwritten, hnew, hcache⟩ :=
    updateOrderInDb_kept h.fresh howns hrej' hcan'
  have hstep : s.step (.update order) =
      { process := some p'
        collection := db'
        latest :=
          Function.update s.latest order.orderId (some (p.handleUpdateOrder order).2) } := by
    simp only [step, hp, hrun]
  have hnew' : d = s.collection.nextId → ¬ s.collection.HasDocument order.orderId := by
    intro hd hdoc
    have hmem : (p.handleUpdateOrder order).2.orderId ∈
        (p.handleUpdateOrder order).1.orderDbCache := hid ▸ (hok p hp hdoc).1
    rw [if_pos hmem, hid] at hnew
    exact hnew hd hdoc
  have hrecords := h.records.written hwritten (hid ▸ hnew') hcan'
  rw [hid] at hrecords
  rw [hstep]
  refine ⟨hrecords, hwritten.fresh h.fresh, fun q hq id saved hlookup => ?_,
    fun {d' json} hlookup => ?_⟩
  · obtain rfl := Option.some.inj hq
    have hsaved := hcache id saved hlookup
    by_cases hi : id = (p.handleUpdateOrder order).2.orderId
    · rw [if_pos hi] at hsaved
      rw [Owns, hsaved]
      exact ⟨_, hwritten.self, hi.symm⟩
    · rw [if_neg hi] at hsaved
      exact (hwritten.sameFor h.fresh hi).owns (howns id saved hsaved)
  · by_cases hd : d' = d
    · rw [hd, hwritten.self, Option.some.injEq, Option.some.injEq] at hlookup
      rw [← hlookup]
      exact ⟨hrej', hcan'⟩
    · rw [hwritten.other hd] at hlookup
      exact h.kept hlookup

/-- An update after which the order has no document: the others keep theirs. -/
theorem sound_gone (h : s.Sound) (hp : s.process = some p) {q : Option OrderProcess}
    {db' : OrderCollection} {o : Order}
    (hstep : s.step (.update order) =
      { process := q, collection := db', latest := Function.update s.latest o.orderId (some o) })
    (hnext : s.collection.nextId ≤ db'.nextId)
    (hsub : ∀ {d doc}, db'.documents.lookup d = some doc →
      s.collection.documents.lookup d = some doc)
    (hsame : ∀ {id}, id ≠ o.orderId → SameFor id s.collection db')
    (hgone : ¬ db'.HasDocument o.orderId)
    (hcache : ∀ r ∈ q, ∀ id saved, r.orderDbCache.lookup id = some saved →
      if id = o.orderId then saved.dataModel.id = none else p.orderDbCache.lookup id = some saved) :
    (s.step (.update order)).Sound := by
  rw [hstep]
  refine ⟨h.records.gone hsub hgone, fun d hd => ?_, fun r hr id saved hlookup => ?_,
    fun hlookup => h.kept (hsub hlookup)⟩
  · obtain ⟨doc, hdoc⟩ := Option.isSome_iff_exists.mp (AList.lookup_isSome.mpr hd)
    exact (h.fresh d (mem_of_lookup (hsub hdoc))).trans_le hnext
  · have hsaved := hcache r hr id saved hlookup
    by_cases hid : id = o.orderId
    · rw [if_pos hid] at hsaved
      rw [Owns, hsaved, hid]
      exact hgone
    · rw [if_neg hid] at hsaved
      exact (hsame hid).owns (h.owns p hp id saved hsaved)

/-- The object of an order stands for the order's document, or the order has none. -/
theorem dataModel_id_iff (h : s.Sound) (hp : s.process = some p) {id : OrderId}
    (hmem : s.collection.HasDocument id → id ∈ p.orderDbCache) {d : DocId} {json : OrderJson}
    (hlookup : s.collection.documents.lookup d = some (some json)) :
    (p.savedOrder id).dataModel.id = some d ↔ json.orderId = id := by
  have hhas : json.orderId = id → s.collection.HasDocument id :=
    fun hjson => hasDocument_iff.mpr ⟨d, json, hlookup, hjson⟩
  cases hm : (p.savedOrder id).dataModel.id with
  | none =>
    refine iff_of_false (Option.some_ne_none d).symm fun hjson => ?_
    have hown := h.owns p hp _ _ (lookup_of_mem (hmem (hhas hjson)))
    rw [Owns, hm] at hown
    exact hown (hhas hjson)
  | some d' =>
    have hin : id ∈ p.orderDbCache := by
      by_contra hnot
      rw [savedOrder_of_not_mem hnot] at hm
      exact Option.some_ne_none d' hm.symm
    have hown := h.owns p hp _ _ (lookup_of_mem hin)
    rw [Owns, hm] at hown
    obtain ⟨json', hlookup', hjson'⟩ := hown
    constructor
    · intro hd
      obtain rfl := Option.some.inj hd
      rw [hlookup, Option.some.injEq, Option.some.injEq] at hlookup'
      exact hlookup' ▸ hjson'
    · intro hjson
      rw [h.records.unique hlookup hlookup' (hjson.trans hjson'.symm)]

/-- A rejection or a cancellation that meets the condition. -/
theorem sound_ended (h : s.Sound) (hp : s.process = some p)
    (hok : s.TracksDocument (.update order))
    (hend : order.status = .rejected ∨ order.status = .canceled) :
    (s.step (.update order)).Sound := by
  have hid := handleUpdateOrder_orderId p order
  rcases hend with hrej | hcan
  · have hrej' := (status_handleUpdateOrder p order (Or.inl rfl)).mpr hrej
    have hstep : s.step (.update order) =
        { process := some { (p.handleUpdateOrder order).1 with
            orderList := (p.handleUpdateOrder order).1.orderList.erase order.orderId }
          collection := s.collection
          latest := Function.update s.latest (p.handleUpdateOrder order).2.orderId
            (some (p.handleUpdateOrder order).2) } := by
      simp only [step, hp, updateOrderInDb, hrej', if_true, hid]
    refine sound_gone h hp hstep le_rfl id (fun _ _ _ _ => Iff.rfl) ?_ ?_
    · rw [hid]
      exact fun hdoc => (hok p hp hdoc).2 hrej
    · rintro r hr id saved hlookup
      obtain rfl := Option.some.inj hr
      have hown := h.owns p hp id saved hlookup
      by_cases hi : id = (p.handleUpdateOrder order).2.orderId
      · rw [if_pos hi]
        cases hm : saved.dataModel.id with
        | none => rfl
        | some d =>
          rw [Owns, hm] at hown
          obtain ⟨json, hdoc, hjson⟩ := hown
          have hhas : s.collection.HasDocument order.orderId :=
            hasDocument_iff.mpr ⟨d, json, hdoc, hjson.trans (hi.trans hid)⟩
          exact absurd hrej (hok p hp hhas).2
      · rw [if_neg hi]
        exact hlookup
  · have hcan' := (status_handleUpdateOrder p order (Or.inr rfl)).mpr hcan
    obtain ⟨q, db', hrun, hnext, hdocs, hcache⟩ :=
      updateOrderInDb_canceled (p := (p.handleUpdateOrder order).1) h.fresh hcan'
    have hstep : s.step (.update order) =
        { process := q, collection := db'
          latest := Function.update s.latest (p.handleUpdateOrder order).2.orderId
            (some (p.handleUpdateOrder order).2) } := by
      simp only [step, hp, hrun, hid]
    have hsub : ∀ {d doc}, db'.documents.lookup d = some doc →
        s.collection.documents.lookup d = some doc := by
      intro d doc hlookup
      rw [hdocs] at hlookup
      split_ifs at hlookup
      exact hlookup
    have howner : ∀ {d json}, s.collection.documents.lookup d = some (some json) →
        (((p.handleUpdateOrder order).1.savedOrder
            (p.handleUpdateOrder order).2.orderId).dataModel.id = some d ↔
          json.orderId = order.orderId) := by
      intro d json hlookup
      rw [hid]
      exact dataModel_id_iff h hp (fun hdoc => (hok p hp hdoc).1) hlookup
    refine sound_gone h hp hstep hnext hsub (fun {id} hi d json hjson => ?_) ?_ hcache
    · rw [hdocs]
      by_cases hd : ((p.handleUpdateOrder order).1.savedOrder
          (p.handleUpdateOrder order).2.orderId).dataModel.id = some d
      · rw [if_pos hd]
        refine iff_of_false (Option.some_ne_none _).symm fun hlookup => ?_
        exact hi (hjson.symm.trans (((howner hlookup).mp hd).trans hid.symm))
      · rw [if_neg hd]
    · intro hdoc
      obtain ⟨d, json, hlookup, hjson⟩ := hasDocument_iff.mp hdoc
      have hd := (howner (hsub hlookup)).mpr (hjson.trans hid)
      rw [hdocs, if_pos hd] at hlookup
      exact Option.some_ne_none _ hlookup.symm

/-- **The step lemma.** -/
theorem sound_step (h : s.Sound) (e : PersistenceEvent) (hok : s.TracksDocument e) :
    (s.step e).Sound := by
  cases e with
  | restart registered found =>
    refine ⟨h.records, h.fresh, fun p hp id saved hlookup => ?_, h.kept⟩
    obtain rfl := Option.some.inj hp
    exact absurd hlookup.symm (Option.some_ne_none saved)
  | update order =>
    cases hp : s.process with
    | none =>
      have hstep : s.step (.update order) = s := by simp only [step, hp]
      rw [hstep]
      exact h
    | some p =>
      by_cases hrej : order.status = .rejected
      · exact sound_ended h hp hok (Or.inl hrej)
      by_cases hcan : order.status = .canceled
      · exact sound_ended h hp hok (Or.inr hcan)
      exact sound_kept h hp hok hrej hcan

/-! ## The process as the manager sees it -/

/-- Updates do not start an ended process again. -/
theorem process_of_ended (orders : List Order) (h : s.process = none) :
    (Run.exec step s (orders.map .update)).process = none := by
  induction orders with
  | nil => exact h
  | cons order orders ih =>
    have hstep : s.step (.update order) = s := by simp only [step, h]
    rw [List.map_cons, Run.exec_cons, hstep]
    exact ih

/-- **The updates of a process are the manager's**, as long as the process goes on. -/
theorem forgets_updates {m : OrderManager} {p' : OrderProcess} (orders : List Order)
    (hp : s.process = some p) (h : p.Forgets m)
    (hp' : (Run.exec step s (orders.map .update)).process = some p') :
    p'.Forgets (orders.foldl OrderManager.settle m) := by
  induction orders generalizing s p m with
  | nil =>
    obtain rfl := Option.some.inj (hp.symm.trans hp')
    exact h
  | cons order orders ih =>
    obtain ⟨hhandled, hsame⟩ := h.handleUpdateOrder order
    rw [List.map_cons, Run.exec_cons] at hp'
    rw [List.foldl_cons]
    cases hrun : (p.handleUpdateOrder order).1.updateOrderInDb s.collection
        (p.handleUpdateOrder order).2 with
    | mk next db' =>
      have hstep : (s.step (.update order)).process = next := by
        simp only [step, hp, hrun]
      cases next with
      | none =>
        -- a process that has ended stays so
        rw [process_of_ended orders hstep] at hp'
        exact absurd hp'.symm (Option.some_ne_none p')
      | some q =>
        have hq := hhandled.updateOrderInDb hrun
        rw [hsame] at hq
        exact ih hstep hq hp'

/-- The same from a restart on: the manager starts with the orders that are loaded. -/
theorem forgets_restart {p' : OrderProcess} (registered : InstrumentList) (found : List Document)
    (orders : List Order)
    (hp' : (Run.exec step s (.restart registered found :: orders.map .update)).process = some p') :
    p'.Forgets (orders.foldl OrderManager.settle
      (.init (OrderManager.loadObjectsMap (found.map (Document.toOrder registered))))) :=
  forgets_updates orders rfl (forgets_load registered found) hp'

/-! ## Where the condition fails -/

/-- A rejection leaves the document as it is. -/
theorem not_recordsAfter_of_rejected (h : s.Sound) (hp : s.process = some p)
    (hdoc : s.collection.HasDocument order.orderId) (hrej : order.status = .rejected) :
    ¬ s.RecordsAfter (.update order) := by
  intro hafter
  have hrej' := (status_handleUpdateOrder p order (Or.inl rfl)).mpr hrej
  obtain ⟨d, json, hlookup, hjson⟩ := hasDocument_iff.mp hdoc
  simp only [RecordsAfter, step, hp, updateOrderInDb, hrej', if_true] at hafter
  obtain ⟨o, hdoc', hlatest⟩ := hafter.isLatest hlookup
  obtain rfl := Option.some.inj hdoc'
  have hid : o.orderId = order.orderId := hjson
  rw [hid, Function.update_self, Option.some.injEq] at hlatest
  exact (h.kept hlookup).1 (hlatest ▸ hrej')

/-- A cancellation without the object leaves the document too. -/
theorem not_recordsAfter_of_canceled (h : s.Sound) (hp : s.process = some p)
    (hdoc : s.collection.HasDocument order.orderId) (hmem : order.orderId ∉ p.orderDbCache)
    (hcan : order.status = .canceled) : ¬ s.RecordsAfter (.update order) := by
  intro hafter
  have hcan' := (status_handleUpdateOrder p order (Or.inr rfl)).mpr hcan
  have hid := handleUpdateOrder_orderId p order
  obtain ⟨q, db', hrun, -, hdocs, -⟩ :=
    updateOrderInDb_canceled (p := (p.handleUpdateOrder order).1) h.fresh hcan'
  have hsaved : (p.handleUpdateOrder order).1.savedOrder
      (p.handleUpdateOrder order).2.orderId = {} := by
    rw [hid]
    exact savedOrder_of_not_mem hmem
  obtain ⟨d, json, hlookup, hjson⟩ := hasDocument_iff.mp hdoc
  simp only [RecordsAfter, step, hp, hrun] at hafter
  refine hafter.canceledGone (Function.update_self _ _ _) hcan'
    (hasDocument_iff.mpr ⟨d, json, ?_, hjson⟩)
  rw [hdocs, hsaved]
  exact hlookup

/-- An update without the object adds a second document. -/
theorem not_recordsAfter_of_kept (h : s.Sound) (hp : s.process = some p)
    (hdoc : s.collection.HasDocument order.orderId) (hmem : order.orderId ∉ p.orderDbCache)
    (hrej : order.status ≠ .rejected) (hcan : order.status ≠ .canceled) :
    ¬ s.RecordsAfter (.update order) := by
  intro hafter
  have hrej' := mt (status_handleUpdateOrder p order (Or.inl rfl)).mp hrej
  have hcan' := mt (status_handleUpdateOrder p order (Or.inr rfl)).mp hcan
  have hid := handleUpdateOrder_orderId p order
  obtain ⟨p', db', d, hrun, hwritten, hnew, -⟩ :=
    updateOrderInDb_kept h.fresh (ownsDocuments_handleUpdateOrder (h.owns p hp)) hrej' hcan'
  have hmem' : (p.handleUpdateOrder order).2.orderId ∉
      (p.handleUpdateOrder order).1.orderDbCache := hid ▸ hmem
  rw [if_neg hmem'] at hnew
  obtain ⟨d', json, hlookup, hjson⟩ := hasDocument_iff.mp hdoc
  have hne : d' ≠ d := by
    rw [hnew]
    exact (h.fresh d' (mem_of_lookup hlookup)).ne
  simp only [RecordsAfter, step, hp, hrun] at hafter
  exact hne (hafter.unique ((hwritten.other hne).trans hlookup) hwritten.self
    (hjson.trans hid.symm))

/-- **Exactness of one step.** -/
theorem recordsAfter_iff (h : s.Sound) (e : PersistenceEvent) :
    s.RecordsAfter e ↔ s.TracksDocument e := by
  refine ⟨fun hafter => ?_, fun hok => (sound_step h e hok).records⟩
  cases e with
  | restart _ _ => exact trivial
  | update order =>
    intro p hp hdoc
    by_cases hrej : order.status = .rejected
    · exact absurd hafter (not_recordsAfter_of_rejected h hp hdoc hrej)
    refine ⟨?_, hrej⟩
    by_contra hmem
    by_cases hcan : order.status = .canceled
    · exact not_recordsAfter_of_canceled h hp hdoc hmem hcan hafter
    · exact not_recordsAfter_of_kept h hp hdoc hmem hrej hcan hafter

/-- **Exactness of a run.** -/
theorem along_recordsAfter_iff (h : s.Sound) (es : List PersistenceEvent) :
    Run.Along step RecordsAfter s es ↔ Run.Along step TracksDocument s es :=
  Run.along_iff_of_invariant (I := Sound) (L := fun _ _ => True)
    (fun _ e h _ hok => sound_step h e hok) (fun _ e h _ => recordsAfter_iff h e) h
    (Run.along_of_forall (fun _ _ => trivial) s es)

/-- **The orders in the database, across restarts.**  After every step of a history the collection
records the last update of each order exactly when every update of an order that has a document
finds the object of that order and does not reject it.  What the restarts load does not matter. -/
theorem records_iff_tracksDocuments (es : List PersistenceEvent) :
    Run.Along step RecordsAfter {} es ↔ Run.Along step TracksDocument {} es :=
  along_recordsAfter_iff sound_init es

/-- An order is placed, the process starts again and finds its document, and the order is filled. -/
def restartRun : List PersistenceEvent :=
  let instrument : Instrument := .create .binance .perpetual "BTC/USDT" "BTCUSDT" 3 2
  let placed : Order :=
    { orderId := 1, status := .new, instrument := instrument, price := 100, quantity := 2 }
  let filled : Order :=
    { placed with status := .filled, filledQuantity := 2, filledPrice := 100 }
  [.update placed, .restart (fun _ _ _ => some instrument) [some placed.toJson], .update filled]

/-- **The filled order has two documents.** -/
theorem restartRun_not_records :
    Run.Along step Legal {} restartRun ∧ ¬ Run.Along step RecordsAfter {} restartRun := by
  refine ⟨by decide +kernel, ?_⟩
  rw [along_recordsAfter_iff sound_init]
  decide +kernel

end OrderStore

end TradingEngine
