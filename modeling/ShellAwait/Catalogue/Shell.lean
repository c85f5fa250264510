import ShellAwait.Catalogue.Basic

/-! # The catalogue of the shell

The shapes of a document database as its interactive shell shows them: databases, collections, cursors and
the results of writes. Only calls that reach the server for their answer are deferred.
-/

namespace ShellAwait.Catalogue

namespace Shell

/-- Methods of whose results nothing is known. -/
def methods (names : List String) : List (String × MemberEntry) := names.map fun name => (name, {})

/-- Methods whose results have to be awaited. -/
def deferred (names : List String) : List (String × MemberEntry) :=
  names.map fun name => (name, { deferred := true })

def yielding (name shape : String) : List (String × MemberEntry) := [(name, { returns := some shape })]

def aggregationCursor : List (String × MemberEntry) :=
  methods ["bsonsize", "close", "forEach", "hasNext", "isClosed", "isExhausted", "itcount",
    "map", "next", "objsLeftInBatch", "toArray"]

def collection : List (String × MemberEntry) :=
  yielding "aggregate" "AggregationCursor" ++
  deferred ["bulkWrite", "countDocuments", "count", "deleteMany", "deleteOne"] ++
  yielding "distinct" "Cursor" ++
  deferred ["estimatedDocumentCount"] ++
  yielding "find" "Cursor" ++
  methods ["findAndModify", "findOne"] ++
  deferred ["findOneAndDelete", "findOneAndReplace", "findOneAndUpdate", "insert", "insertMany",
    "insertOne", "isCapped", "remove", "save", "replaceOne", "update", "updateMany",
    "updateOne"]

def cursor : List (String × MemberEntry) :=
  methods ["addOption", "allowPartialResults", "arrayAccess", "batchSize", "clone", "close",
    "collation", "comment", "count", "explain", "forEach", "getQueryPlan", "hasNext", "hint",
    "isClosed", "isExhausted", "itcount", "length", "limit", "map", "max", "maxScan",
    "maxTimeMS", "min", "modifiers", "next", "noCursorTimeout", "objsLeftInBatch",
    "oplogReplay", "projection", "pretty", "readConcern", "readOnly", "readPref", "returnKey",
    "showDiskLoc", "showRecordId", "size", "skip", "snapshot", "sort", "tailable", "toArray"]

def database : List (String × MemberEntry) :=
  yielding "getCollection" "Collection" ++
  methods ["runCommand"]

def config : Config where
  globals := ⟨[("db", { kind := .property, returns := some "Database" })] ++ methods ["use", "it"]⟩
  shapes := ⟨[
    ("AggregationCursor", { members := ⟨aggregationCursor⟩ }),
    ("BulkWriteResult", {}),
    ("Collection", { members := ⟨collection⟩ }),
    ("Cursor", { members := ⟨cursor⟩ }),
    ("Database", { anyMember := some "Collection", members := ⟨database⟩ }),
    ("DeleteResult", {}),
    ("InsertManyResult", {}),
    ("InsertOneResult", {}),
    ("ReplicaSet", {}),
    ("Shard", {}),
    ("UpdateResult", {})]⟩

end Shell

/-- The catalogue that serves where no other is named. -/
def shell : Catalogue := Shell.config.resolve

end ShellAwait.Catalogue
