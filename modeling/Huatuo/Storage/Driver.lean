import Mathlib.Data.String.Basic

/-!
# Storage queries

`internal/storage/driver`: the query that a store passes to its backend, and the check of
`storage.Store.Query` before it does. The values of filters are texts.
-/

namespace Huatuo.Storage

inductive FilterOp where
  | eq (value : String)
  | ne (value : String)
  | gt (value : String)
  | gte (value : String)
  | lt (value : String)
  | lte (value : String)
  | isIn (values : List String)
  | fieldExists
  | notExists
  deriving DecidableEq, Repr

structure Filter where
  field : String
  op : FilterOp
  deriving DecidableEq, Repr

structure SortField where
  field : String
  desc : Bool
  deriving DecidableEq, Repr

def defaultBatchSize : Int := 100

structure Query where
  filters : List Filter := []
  sorts : List SortField := []
  limit : Int
  batchSize : Int := 0
  offset : Int
  deriving DecidableEq, Repr

/-- The batch size, or its default. -/
def Query.effectiveBatchSize (q : Query) : Int :=
  if q.batchSize = 0 then defaultBatchSize else q.batchSize

/-- `ReadSize`. -/
def Query.readSize (q : Query) : Int := min q.effectiveBatchSize q.limit

def validateQuery (q : Query) : Except String Unit :=
  if q.limit ≤ 0 then .error "storage: invalid query: query limit must be positive"
  else if q.offset < 0 then .error "storage: invalid query: query offset must be non-negative"
  else if q.batchSize < 0 then .error "storage: invalid query: batch size must be non-negative"
  else .ok ()

end Huatuo.Storage
