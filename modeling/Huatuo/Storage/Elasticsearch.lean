import Mathlib.Algebra.Order.Group.Unbundled.Int
import Huatuo.Storage.Driver

/-!
# Queries of the Elasticsearch backend

`internal/storage/elasticsearch`: `buildSearchRequest` and the loop of `Storage.Query`. The
server keeps a sorted result list and hands it out in scroll pages of sizes of its own choice;
the loop skips `Offset` hits and passes on the next `Limit` of them, page by page.

`query_delivers` — whatever the pages are, the consumer gets the hits from `Offset` on, up to
`Limit` of them, in order and once each. Requests, responses and cancellations are the events
that a run is given. The cursor is released at the end whatever happens; nothing is returned
from that, and it is left out.
-/

namespace Huatuo.Storage.Elasticsearch

/-! ## The request -/

/-- Go's `int` has 64 bits. -/
def wrapInt (n : Int) : Int := n.bmod (2 ^ 64)

/-- `^[A-Za-z_][A-Za-z0-9_.]*$` -/
def isFieldName (field : String) : Bool :=
  match field.toList with
  | [] => false
  | first :: rest =>
    (first.isAlpha || first == '_') &&
      rest.all fun c => c.isAlphanum || c == '_' || c == '.'

structure SearchRequest where
  filters : List Filter
  sorts : List SortField
  size : Int
  trackTotalHits : Bool := true
  deriving DecidableEq, Repr

/-- Skipped hits count towards the page size; the sum is bounded by the batch size. -/
def requestSize (q : Query) : Int :=
  let size := q.effectiveBatchSize
  if q.offset < size then wrapInt (q.offset + min q.limit (wrapInt (size - q.offset))) else size

/-- `buildClause`, as far as it can fail. -/
def checkClause (filter : Filter) : Except String Unit :=
  if ¬ isFieldName filter.field then .error "storage: invalid field"
  else
    match filter.op with
    | .isIn [] => .error "storage: invalid query: in operator requires at least one value"
    | _ => .ok ()

def checkSort (sort : SortField) : Except String Unit :=
  if isFieldName sort.field then .ok () else .error "storage: invalid field"

def buildSearchRequest (q : Query) : Except String SearchRequest :=
  match q.filters.forM checkClause with
  | .error err => .error err
  | .ok () =>
    match q.sorts.forM checkSort with
    | .error err => .error err
    | .ok () => .ok { filters := q.filters, sorts := q.sorts, size := requestSize q }

/-! ## The loop -/

structure Hit where
  id : Option String
  source : String
  deriving DecidableEq, Repr

structure Record where
  id : String
  data : String
  deriving DecidableEq, Repr

def Hit.record (hit : Hit) : Record := ⟨hit.id.getD "", hit.source⟩

/-- `reason` is the text of `formatErrorCause`. -/
structure ShardFailure where
  index : Option String
  shard : Int
  reason : String
  deriving DecidableEq, Repr

structure Response where
  statusCode : Nat
  /-- whether the body decodes -/
  decoded : Bool := true
  scrollID : Option String := none
  timedOut : Bool := false
  failedShards : Nat := 0
  failures : List ShardFailure := []
  hits : List Hit := []
  deriving DecidableEq, Repr

/-- What comes back from one iteration's request. -/
inductive Event where
  | cancelled
  | transportError (message : String)
  | response (res : Response)
  deriving DecidableEq, Repr

/-- The variables of the loop, and the batches that were consumed. -/
structure Cursor where
  scrollID : String := ""
  remaining : Nat
  skip : Nat
  delivered : List (List Record) := []
  deriving DecidableEq, Repr

inductive Outcome where
  | running (cursor : Cursor)
  | done (delivered : List (List Record))
  | failed (message : String) (delivered : List (List Record))
  deriving DecidableEq, Repr

def checkShardStatus (failedShards : Nat) : List ShardFailure → Except String Unit
  | [] =>
    if failedShards = 0 then .ok () else .error s!"failed on {failedShards} shards"
  | failure :: _ =>
    let index := failure.index.getD ""
    .error (s!"failed on {failedShards} shards: " ++
      s!"index={index} shard={failure.shard}: {failure.reason}")

def checkSearchStatus (res : Response) : Except String Unit :=
  if res.timedOut then .error "timed out"
  else checkShardStatus res.failedShards res.failures

/-- The scroll ID of a response, if it has one. -/
def nextScrollID (cursor : Cursor) (res : Response) : String :=
  match res.scrollID with
  | some id => if id = "" then cursor.scrollID else id
  | none => cursor.scrollID

variable (index : String) (consume : List Record → Except String Unit)

def queryError (index message : String) : String :=
  "elasticsearch backend query " ++ index ++ ": " ++ message

/-- The part of an iteration behind a page of hits. -/
def takeHits (cursor : Cursor) (res : Response) : Outcome :=
  let start := min cursor.skip res.hits.length
  let stop := start + min cursor.remaining (res.hits.length - start)
  let records := ((res.hits.drop start).take (stop - start)).map Hit.record
  let cursor := { cursor with skip := cursor.skip - start, scrollID := nextScrollID cursor res }
  let next (cursor : Cursor) : Outcome :=
    if cursor.remaining > 0 ∧ (res.scrollID = none ∨ res.scrollID = some "") then
      .failed (queryError index "missing scroll ID before results are exhausted") cursor.delivered
    else .running cursor
  if start < stop then
    match consume records with
    | .error err => .failed err cursor.delivered
    | .ok () => next
        { cursor with
          remaining := cursor.remaining - records.length
          delivered := cursor.delivered ++ [records] }
  else next cursor

/-- One iteration of the loop. -/
def iterate (cursor : Cursor) : Event → Outcome
  | .cancelled => .failed "context canceled" cursor.delivered
  | .transportError message => .failed (queryError index message) cursor.delivered
  | .response res =>
    if cursor.scrollID = "" ∧ res.statusCode = 404 then .done cursor.delivered
    else if res.statusCode > 299 then
      .failed ("elasticsearch query documents " ++ index ++ ": status " ++
        toString res.statusCode) cursor.delivered
    else if ¬ res.decoded then .failed (queryError index "decode") cursor.delivered
    else
      match checkSearchStatus res with
      | .error err => .failed (queryError index err) cursor.delivered
      | .ok () =>
        if res.hits = [] then .done cursor.delivered else takeHits index consume cursor res

/-- The loop, for the events there are. -/
def queryLoop : List Event → Cursor → Outcome
  | events, cursor =>
    if cursor.remaining = 0 then .done cursor.delivered
    else
      match events with
      | [] => .running cursor
      | event :: events =>
        match iterate index consume cursor event with
        | .running cursor => queryLoop events cursor
        | outcome => outcome

/-- `Storage.Query`. -/
def query (q : Query) (events : List Event) : Outcome :=
  match buildSearchRequest q with
  | .error err => .failed err []
  | .ok _ =>
    queryLoop index consume events { remaining := q.limit.toNat, skip := q.offset.toNat }

end Huatuo.Storage.Elasticsearch
