import TradingEngine.Machinery.Run
import TradingEngine.OrderBook.Book

/-!
# Binance/DepthSync — keeping a book in step with a depth stream

`BinanceOrderBook` joins a stream of depth updates to a REST snapshot of the book.  The first
message of a connection starts the buffering and sends the request; the response publishes the
snapshot, drains the buffer and goes live; a broken chain or a disconnect resets everything by
`re_fetch_order_book` and starts over.

The handlers are functions of the members they share.  What they do outside — publish a snapshot,
pass an update on, send a request, post a re-fetch — is their list of effects.  The machine at the
end adds the requests that are suspended at their `co_await`.
-/

namespace TradingEngine

/-- A price level as it stands in a message: the price and the quantity. -/
abbrev Level := ℚ × ℚ

/-- The fields of a depth message that are read.  The ids are only compared, so they stay `ℕ`. -/
structure DepthUpdate where
  U : ℕ
  u : ℕ
  pu : ℕ
  asks : List Level := []
  bids : List Level := []
  deriving DecidableEq

/-- The fields of a response that are read; a field that is missing reads as its default. -/
structure DepthResponse where
  lastUpdateId : ℕ := 0
  asks : List Level := []
  bids : List Level := []
  deriving DecidableEq

/-- `BinanceOrderBook::SyncState`. -/
inductive SyncState
  | none
  | buffering
  | synced
  deriving DecidableEq, Repr

/-- What the handlers do outside their own members. -/
inductive DepthEffect
  | sendRequest
  | publishSnapshot (response : DepthResponse)
  | applyUpdate (update : DepthUpdate)
  | postReFetch
  | restartWebsocket
  deriving DecidableEq

/-- `BinanceOrderBook`, the members its handlers share. -/
structure BinanceOrderBook where
  syncState : SyncState := .none
  hasReceivedFirstUpdate : Bool := false
  bufferedUpdates : List DepthUpdate := []
  snapshotLastUpdateId : ℕ := 0
  packageLastUpdateId : ℕ := 0
  deriving DecidableEq

namespace BinanceOrderBook

open DepthEffect

variable (b : BinanceOrderBook)

def reFetchOrderBook (_ : BinanceOrderBook) : BinanceOrderBook × List DepthEffect :=
  ({  syncState := .none
      hasReceivedFirstUpdate := false
      snapshotLastUpdateId := 0
      packageLastUpdateId := 0
      bufferedUpdates := [] },
    [restartWebsocket])

def checkApplyUpdate (d : DepthUpdate) : BinanceOrderBook × List DepthEffect :=
  -- duplicate / old update
  if b.packageLastUpdateId ≠ 0 ∧ d.u ≤ b.packageLastUpdateId then (b, [])
  else if b.packageLastUpdateId ≠ 0 ∧ d.pu ≠ b.packageLastUpdateId then (b, [postReFetch])
  else ({ b with packageLastUpdateId := d.u }, [applyUpdate d])

def handleOrderBookUpdate (d : DepthUpdate) : BinanceOrderBook × List DepthEffect :=
  match b.syncState with
  | .none => (b, [])
  | .buffering => ({ b with bufferedUpdates := b.bufferedUpdates ++ [d] }, [])
  | .synced => b.checkApplyUpdate d

variable {b}

theorem handleOrderBookUpdate_none (h : b.syncState = .none) (d : DepthUpdate) :
    b.handleOrderBookUpdate d = (b, []) := by simp [handleOrderBookUpdate, h]

theorem handleOrderBookUpdate_buffering (h : b.syncState = .buffering) (d : DepthUpdate) :
    b.handleOrderBookUpdate d = ({ b with bufferedUpdates := b.bufferedUpdates ++ [d] }, []) := by
  simp [handleOrderBookUpdate, h]

theorem handleOrderBookUpdate_synced (h : b.syncState = .synced) (d : DepthUpdate) :
    b.handleOrderBookUpdate d = b.checkApplyUpdate d := by simp [handleOrderBookUpdate, h]

variable (b)

/-- The first half of `on_message`: the first message of a connection asks for the snapshot. -/
def receiveFirst : BinanceOrderBook × List DepthEffect :=
  if b.hasReceivedFirstUpdate then (b, [])
  else ({ b with hasReceivedFirstUpdate := true, syncState := .buffering }, [sendRequest])

def onMessage (d : DepthUpdate) : BinanceOrderBook × List DepthEffect :=
  let first := b.receiveFirst
  let handled := first.1.handleOrderBookUpdate d
  (handled.1, first.2 ++ handled.2)

/-- The loop of `process_buffered_updates_after_snapshot`, with the queue it pops from. -/
def drain (b : BinanceOrderBook) (foundFirstValidUpdate : Bool) :
    List DepthUpdate → BinanceOrderBook × List DepthEffect × Bool
  | [] => ({ b with bufferedUpdates := [] }, [], true)
  | d :: rest =>
    -- old update, already included in snapshot
    if d.u < b.snapshotLastUpdateId then b.drain foundFirstValidUpdate rest
    else if foundFirstValidUpdate = false then
      -- first update after snapshot must bridge snapshot lastUpdateId
      if ¬ (d.U ≤ b.snapshotLastUpdateId ∧ b.snapshotLastUpdateId ≤ d.u) then
        ({ b with bufferedUpdates := rest }, [], false)
      else
        let drained := drain { b with packageLastUpdateId := d.u } true rest
        (drained.1, applyUpdate d :: drained.2.1, drained.2.2)
    else if d.pu ≠ b.packageLastUpdateId then ({ b with bufferedUpdates := rest }, [], false)
    else
      let drained := drain { b with packageLastUpdateId := d.u } true rest
      (drained.1, applyUpdate d :: drained.2.1, drained.2.2)

def processBufferedUpdatesAfterSnapshot : BinanceOrderBook × List DepthEffect × Bool :=
  b.drain false b.bufferedUpdates

/-- `send_request_get_snapshot` from its resumption on. -/
def resumeWithSnapshot (r : DepthResponse) : BinanceOrderBook × List DepthEffect :=
  let processed :=
    processBufferedUpdatesAfterSnapshot { b with snapshotLastUpdateId := r.lastUpdateId }
  if processed.2.2 = false then
    (processed.1, publishSnapshot r :: processed.2.1 ++ [postReFetch])
  else ({ processed.1 with syncState := .synced }, publishSnapshot r :: processed.2.1)

end BinanceOrderBook

/-! ## What reaches the book -/

/-- The snapshot object a response is copied to: a pooled object takes at most `maxLevels` levels of
each side. -/
def DepthResponse.snapshot (r : DepthResponse) (instrument : Option Instrument) (maxLevels : ℕ) :
    OrderBookSnapShot :=
  .ofLevels instrument ((r.bids.take maxLevels).map fun l => ⟨l.1, l.2⟩)
    ((r.asks.take maxLevels).map fun l => ⟨l.1, l.2⟩)

/-- One level of `apply_update`. -/
def OrderBookUpdate.ofLevel (instrument : Option Instrument) (side : OrderBookSideType)
    (level : Level) : OrderBookUpdate where
  instrument := instrument
  side := side
  type := if level.2 = 0 then .remove else .update
  price := level.1
  quantity := level.2

/-- The updates `apply_update` publishes: the asks, then the bids. -/
def DepthUpdate.updates (d : DepthUpdate) (instrument : Option Instrument) : List OrderBookUpdate :=
  d.asks.map (.ofLevel instrument .ask) ++ d.bids.map (.ofLevel instrument .bid)

/-- What an effect does to the book of the instrument: the tasks of `OrderBookManager` run in the
order they were posted. -/
def DepthEffect.publish (maxLevels : ℕ) (b : OrderBook) : DepthEffect → OrderBook
  | .publishSnapshot r => b.applySnapshot (r.snapshot b.instrument maxLevels)
  | .applyUpdate d => (d.updates b.instrument).foldl OrderBook.applyUpdate b
  | .sendRequest | .postReFetch | .restartWebsocket => b

/-! ## The machine -/

/-- A `BinanceOrderBook` with its suspended requests.  Each request is named by the epoch it was
sent in; an epoch ends when a re-fetch runs. -/
structure DepthSync where
  book : BinanceOrderBook := {}
  epoch : ℕ := 0
  requests : List ℕ := []
  deriving DecidableEq

/-- A message arrives, a suspended request resumes with a response, a re-fetch runs (posted by a
handler, or by a disconnect at any time). -/
inductive DepthEvent
  | message (update : DepthUpdate)
  | response (request : ℕ) (response : DepthResponse)
  | reFetch
  deriving DecidableEq

namespace DepthSync

variable (s : DepthSync)

/-- One step of the machine.  A response to no request cannot happen and does nothing. -/
def step (s : DepthSync) : DepthEvent → DepthSync × List DepthEffect
  | .message d =>
    let handled := s.book.onMessage d
    let sent := if s.book.hasReceivedFirstUpdate then [] else [s.epoch]
    ({ s with book := handled.1, requests := s.requests ++ sent }, handled.2)
  | .response i r =>
    if i < s.requests.length then
      let handled := s.book.resumeWithSnapshot r
      ({ s with book := handled.1, requests := s.requests.eraseIdx i }, handled.2)
    else (s, [])
  | .reFetch =>
    let handled := s.book.reFetchOrderBook
    ({ s with book := handled.1, epoch := s.epoch + 1 }, handled.2)

variable {s}

/-- **The first message of a connection** is buffered, and the request goes out. -/
theorem step_message_first (h : s.book.hasReceivedFirstUpdate = false) (d : DepthUpdate) :
    s.step (.message d) =
      ({ s with
          book :=
            { s.book with
              hasReceivedFirstUpdate := true
              syncState := .buffering
              bufferedUpdates := s.book.bufferedUpdates ++ [d] }
          requests := s.requests ++ [s.epoch] },
        [.sendRequest]) := by
  simp [step, BinanceOrderBook.onMessage, BinanceOrderBook.receiveFirst,
    BinanceOrderBook.handleOrderBookUpdate, h]

/-- **A later message** goes to `handle_order_book_update`. -/
theorem step_message_later (h : s.book.hasReceivedFirstUpdate = true) (d : DepthUpdate) :
    s.step (.message d) =
      ({ s with book := (s.book.handleOrderBookUpdate d).1 },
        (s.book.handleOrderBookUpdate d).2) := by
  simp [step, BinanceOrderBook.onMessage, BinanceOrderBook.receiveFirst, h]

theorem step_response {i : ℕ} (h : i < s.requests.length) (r : DepthResponse) :
    s.step (.response i r) =
      ({ s with
          book := (s.book.resumeWithSnapshot r).1
          requests := s.requests.eraseIdx i },
        (s.book.resumeWithSnapshot r).2) := if_pos h

theorem step_response_none {i : ℕ} (h : ¬ i < s.requests.length) (r : DepthResponse) :
    s.step (.response i r) = (s, []) := if_neg h

end DepthSync

end TradingEngine
