import Huatuo.Job.Types
import Huatuo.Storage.Sqlite
import Huatuo.Timeutil

/-!
# Listing Jobs

`Manager.ListPage` and `storageStore.List`, from the user's query to the statement of the SQLite
backend. A page is read with one record more than it has, which tells whether there is another
page.

Rows are the Jobs that they decode to; a row that does not decode fails the query.
-/

namespace Huatuo.Job

open Timeutil (formatUTC)

/-! ## Queries -/

structure Query where
  id : String := ""
  userID : String := ""
  isAdmin : Bool := false
  containerID : String := ""
  hostname : String := ""
  statuses : List Status := []
  kinds : List Kind := []
  subtypes : List String := []
  sort : String := ""
  limit : Int
  offset : Int := 0
  /-- Empty starts from the beginning. -/
  lastReadID : String := ""
  deriving DecidableEq, Repr

structure Page where
  items : List Job
  hasMore : Bool
  deriving DecidableEq, Repr

def maxJobPageSize : Int := 1000

def validateListPageQuery : Option Query → Except String Unit
  | none => .error "invalid job query: page limit must be between 1 and 1000"
  | some query =>
    if query.limit ≤ 0 ∨ query.limit > maxJobPageSize then
      .error "invalid job query: page limit must be between 1 and 1000"
    else if query.offset < 0 then .error "invalid job query: offset must not be negative"
    else .ok ()

def jobQueryFields : List String :=
  ["id", "user_id", "container_id", "hostname", "status", "kind", "subtype", "created_at",
    "ended_at"]

/-- The sort field and whether the order is descending. -/
def querySort : Option Query → String × Bool
  | none => ("created_at", true)
  | some query =>
    if query.sort = "" then ("created_at", true)
    else
      match query.sort.toList with
      | '-' :: field => (String.ofList field, true)
      | _ => (query.sort, false)

def validateQuerySort (query : Option Query) : Except String Unit :=
  let field := (querySort query).1
  if jobQueryFields.contains field then .ok ()
  else .error ("invalid job query: unsupported sort field " ++ field.quote)

/-- `appendEqual`: an empty value does not filter. -/
def equalFilter (field value : String) : List Storage.Filter :=
  if value = "" then [] else [⟨field, .eq value⟩]

/-- A list of values filters unless it is empty. -/
def inFilter (field : String) (values : List String) : List Storage.Filter :=
  if values = [] then [] else [⟨field, .isIn values⟩]

def queryFilters (query : Query) : List Storage.Filter :=
  equalFilter "id" query.id ++
    (if query.lastReadID = "" then [] else [⟨"id", .gt query.lastReadID⟩]) ++
    (if query.isAdmin then [] else equalFilter "user_id" query.userID) ++
    equalFilter "container_id" query.containerID ++
    equalFilter "hostname" query.hostname ++
    inFilter "status" (query.statuses.map Status.raw) ++
    inFilter "kind" (query.kinds.map Kind.raw) ++
    inFilter "subtype" query.subtypes

/-- The sort field, with the ID to break ties. -/
def querySorts (field : String) (desc : Bool) : List Storage.SortField :=
  ⟨field, desc⟩ :: if field = "id" then [] else [⟨"id", desc⟩]

def buildStorageQuery (query : Option Query) : Except String Storage.Query :=
  match validateQuerySort query with
  | .error err => .error err
  | .ok () =>
    match query with
    | none => .ok { sorts := [⟨"created_at", true⟩, ⟨"id", true⟩], limit := 0, offset := 0 }
    | some q =>
      let (sortField, descending) := querySort query
      .ok
        { filters := queryFilters q
          sorts := querySorts sortField descending
          limit := q.limit
          offset := q.offset }

/-! ## The store -/

def Spec.subtype (s : Spec) : Kind → String
  | .profiling => (s.profiling.map fun p => p.type.raw).getD ""
  | .tracing => (s.tracing.map fun t => t.type.raw).getD ""
  | .unsupported _ => ""

/-- `recordMapper.Fields`, of the fields that can be sorted by. -/
def indexField (job : Job) (field : String) : String :=
  match field with
  | "id" => job.id
  | "user_id" => job.userID
  | "container_id" => job.containerID
  | "hostname" => job.hostname
  | "status" => job.status.raw
  | "kind" => job.kind.raw
  | "subtype" => job.spec.subtype job.kind
  | "created_at" => formatUTC job.createdAt
  | "ended_at" => if job.endedAt.isZero then "" else formatUTC job.endedAt
  | _ => ""

/-- The decoding of a batch in `storage.Store.Query`. -/
def decodeBatch (batch : List Job) : Except String (List Job) :=
  batch.mapM fun job =>
    match job.validateStored with
    | .error err => .error ("storage: decode failed: " ++ err)
    | .ok () => .ok job

/-- `storageStore.List`. -/
def list (rows : List Job) (query : Option Query) : Except String (List Job) :=
  match buildStorageQuery query with
  | .error err => .error err
  | .ok storageQuery =>
    match Storage.validateQuery storageQuery with
    | .error err => .error err
    | .ok () =>
      (Storage.queryRows indexField storageQuery rows).foldlM
        (fun jobs batch => (decodeBatch batch).map (jobs ++ ·)) []

/-- `Manager.ListPage`. -/
def listPage (rows : List Job) (query : Option Query) : Except String Page :=
  match validateListPageQuery query, query with
  | .error err, _ => .error err
  | .ok (), none => .error "invalid job query: page limit must be between 1 and 1000"
  | .ok (), some q =>
    match list rows (some { q with limit := q.limit + 1 }) with
    | .error err => .error err
    | .ok items =>
      let hasMore := decide ((items.length : Int) > q.limit)
      .ok
        { items := if hasMore then items.take q.limit.toNat else items
          hasMore := hasMore }

end Huatuo.Job
