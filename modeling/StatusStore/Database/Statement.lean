/-
  StatusStore/Database/Statement.lean
  ===================================
  **The statements of the transactions**, one constructor for each kind of
  change to the tables.  A transaction is a list of statements: `runAll` gives
  the tables after all of them, or the error of the first that fails, and then
  nothing else is left of it.

  A join is a set: joining what is joined already changes nothing.
-/
import StatusStore.Database.Tables

namespace StatusStore.Database

inductive Operation
  | select
  | insert
  | update
  | delete
deriving DecidableEq, Repr

def Operation.name : Operation → String
  | select => "select"
  | insert => "insert"
  | update => "update"
  | delete => "delete"

structure Query where
  operation : Operation
  table : TableName
deriving DecidableEq, Repr

inductive Statement
  | insertThread (thread : Thread)
  | joinEmoji (statusId emojiId : String)
  | joinTag (statusId tagId : String)
  | joinThread (threadId statusId : String)
  /-- Make an attachment belong to a status. -/
  | claimAttachment (id statusId : String) (updatedAt : Timestamp)
  | insertStatus (row : StatusRow)
  /-- Write `columns` and the time of update of the row that has the id of `source`. -/
  | updateStatus (source : StatusRow) (columns : List StatusColumn)
  | leaveTags (statusId : String)
  | leaveEmojis (statusId : String)
  | leaveThreads (statusId : String)
  | deleteStatus (id : String)
deriving Repr

def columnNames : StatusColumn → List String
  | .uri => ["uri"]
  | .url => ["url"]
  | .content => ["content"]
  | .contentWarning => ["content_warning"]
  | .visibility => ["visibility"]
  | .language => ["language"]
  | .sensitive => ["sensitive"]
  | .inReplyTo => ["in_reply_to_id", "in_reply_to_uri", "in_reply_to_account_id"]
  | .boostOf => ["boost_of_id", "boost_of_account_id"]
  | .threadId => ["thread_id"]
  | .pollId => ["poll_id"]
  | .createdWithApplicationId => ["created_with_application_id"]
  | .attachmentIds => ["attachment_ids"]
  | .tagIds => ["tag_ids"]
  | .mentionIds => ["mention_ids"]
  | .emojiIds => ["emoji_ids"]

/-- `row` with the time of update and `columns` taken from `source`. -/
def updateRow (source : StatusRow) (columns : List StatusColumn) (row : Stored StatusRow) :
    Stored StatusRow :=
  row.writeColumns ("updated_at" :: columns.flatMap columnNames) fun row =>
    columns.foldl (fun row c => c.write source row) { row with updatedAt := source.updatedAt }

def join (joins : List (String × String)) (pair : String × String) : List (String × String) :=
  if joins.contains pair then joins else joins ++ [pair]

namespace Statement

def query : Statement → Query
  | insertThread _ => ⟨.insert, .threads⟩
  | joinEmoji _ _ => ⟨.insert, .statusEmojis⟩
  | joinTag _ _ => ⟨.insert, .statusTags⟩
  | joinThread _ _ => ⟨.insert, .threadStatuses⟩
  | claimAttachment _ _ _ => ⟨.update, .attachments⟩
  | insertStatus _ => ⟨.insert, .statuses⟩
  | updateStatus _ _ => ⟨.update, .statuses⟩
  | leaveTags _ => ⟨.delete, .statusTags⟩
  | leaveEmojis _ => ⟨.delete, .statusEmojis⟩
  | leaveThreads _ => ⟨.delete, .threadStatuses⟩
  | deleteStatus _ => ⟨.delete, .statuses⟩

def apply (t : Tables) : Statement → Except Error Tables
  | insertThread thread => t.insert thread
  | joinEmoji statusId emojiId =>
    .ok { t with statusEmojis := join t.statusEmojis (statusId, emojiId) }
  | joinTag statusId tagId => .ok { t with statusTags := join t.statusTags (statusId, tagId) }
  | joinThread threadId statusId =>
    .ok { t with threadStatuses := join t.threadStatuses (threadId, statusId) }
  | claimAttachment id statusId updatedAt =>
    .ok { t with
      attachments := t.attachments.map fun r =>
        if r.value.id = id then
          r.writeColumns ["status_id", "updated_at"]
            ({ · with statusId := some statusId, updatedAt })
        else r }
  | insertStatus row => t.insert row
  | updateStatus source columns =>
    let (rows, others) := t.statuses.partition (·.value.id = source.id)
    match rows with
    | [] => .error .notFound
    | row :: _ =>
      let row := updateRow source columns row
      if others.any (Tables.conflict row.value ·.value) then .error .alreadyExists
      else .ok { t with
        statuses := t.statuses.map fun r => if r.value.id = source.id then row else r }
  | leaveTags statusId => .ok { t with statusTags := t.statusTags.filter (·.1 ≠ statusId) }
  | leaveEmojis statusId => .ok { t with statusEmojis := t.statusEmojis.filter (·.1 ≠ statusId) }
  | leaveThreads statusId =>
    .ok { t with threadStatuses := t.threadStatuses.filter (·.2 ≠ statusId) }
  | deleteStatus id => .ok { t with statuses := t.statuses.filter (·.value.id ≠ id) }

/-- The tables after a statement, which fails if its table was dropped. -/
def run (t : Tables) (s : Statement) : Except Error Tables := do
  t.require s.query.table
  s.apply t

/-- The tables after statements in turn, up to the first that fails. -/
def runAll (t : Tables) : List Statement → Except Error Tables
  | [] => .ok t
  | s :: rest =>
    match s.run t with
    | .ok t => runAll t rest
    | .error e => .error e

/-- The statements that are tried: all up to the first that fails. -/
def attempted (t : Tables) : List Statement → List Statement
  | [] => []
  | s :: rest =>
    match s.run t with
    | .ok t => s :: attempted t rest
    | .error _ => [s]

/-! ### The transactions on a status -/

def joins (s : Status) : List Statement :=
  s.emojis.toIds.map (joinEmoji s.id)
    ++ s.tags.toIds.map (joinTag s.id)
    ++ s.attachments.toIds.map (claimAttachment · s.id s.updatedAt)
    ++ (s.threadId.map (joinThread · s.id)).toList

/-- Insert a status with its joins; the thread that it starts comes first. -/
def put (s : Status) (newThread : Option Thread) : List Statement :=
  (newThread.map insertThread).toList ++ joins s ++ [insertStatus s.toRow]

/-- Write `columns` of a status, which are all columns if none is named, and its joins. -/
def update (s : Status) (columns : List StatusColumn) : List Statement :=
  joins s ++ [updateStatus s.toRow (if columns.isEmpty then StatusColumn.all else columns)]

def delete (id : String) : List Statement :=
  [leaveTags id, leaveEmojis id, leaveThreads id, deleteStatus id]

end Statement

end StatusStore.Database
