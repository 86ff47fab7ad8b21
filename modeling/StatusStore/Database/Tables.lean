/-
  StatusStore/Database/Tables.lean
  ================================
  **The tables**, each a list of rows in the order of their insertion.  A table
  can be dropped, after which every use of it fails.

  `Persistent` says of a record type which table keeps it, what the columns are,
  and which values must be unique; inserting, finding and overwriting follow
  from that for all of them at once.
-/
import StatusStore.Database.Row

namespace StatusStore.Database

/-- The tables of the schema, the record of the migrations, and the catalogue of all of them. -/
inductive TableName
  | accounts
  | applications
  | polls
  | attachments
  | tags
  | emojis
  | mentions
  | threads
  | statuses
  | statusTags
  | statusEmojis
  | threadStatuses
  | migrations
  | catalogue
deriving DecidableEq, Repr

namespace TableName

def text : TableName → String
  | accounts => "accounts"
  | applications => "applications"
  | polls => "polls"
  | attachments => "media_attachments"
  | tags => "tags"
  | emojis => "emojis"
  | mentions => "mentions"
  | threads => "threads"
  | statuses => "statuses"
  | statusTags => "status_to_tags"
  | statusEmojis => "status_to_emojis"
  | threadStatuses => "thread_to_statuses"
  | migrations => "_sqlx_migrations"
  | catalogue => "sqlite_master"

def all : List TableName := [
  accounts, applications, polls, attachments, tags, emojis, mentions, threads, statuses,
  statusTags, statusEmojis, threadStatuses, migrations, catalogue]

/-- The table of a name, in which capitals count as small letters.  The catalogue has two names. -/
def ofText? (s : String) : Option TableName :=
  if s.toLower = "sqlite_schema" then some catalogue else all.find? (·.text = s.toLower)

/-- Number of indexes of a table: for its key, for other unique columns, and for searching. -/
def indexes : TableName → Nat
  | accounts | tags | attachments | statusEmojis | threadStatuses => 2
  | applications | polls | emojis | mentions | threads | statusTags | migrations => 1
  | statuses => 6
  | catalogue => 0

end TableName

structure Tables where
  accounts : List (Stored Account) := []
  applications : List (Stored Application) := []
  polls : List (Stored Poll) := []
  attachments : List (Stored Attachment) := []
  tags : List (Stored Tag) := []
  emojis : List (Stored Emoji) := []
  mentions : List (Stored Mention) := []
  threads : List (Stored Thread) := []
  statuses : List (Stored StatusRow) := []
  /-- Status ids with the ids of their tags. -/
  statusTags : List (String × String) := []
  /-- Status ids with the ids of their emojis. -/
  statusEmojis : List (String × String) := []
  /-- Thread ids with the ids of their statuses. -/
  threadStatuses : List (String × String) := []
  dropped : List TableName := []
deriving Repr, DecidableEq, Inhabited

instance : Identified StatusRow := ⟨fun r => r.id⟩

class Persistent (α : Type) extends Identified α where
  table : TableName
  /-- The columns, in order. -/
  columns : List (Column α)
  /-- What must be unique besides the id. -/
  unique : List (α → String) := []
  rows : Tables → List (Stored α)
  setRows : Tables → List (Stored α) → Tables

open Column

instance : Persistent Account where
  table := .accounts
  columns := [
    text "id" fun x a => { a with id := x },
    text "username" fun x a => { a with username := x },
    text? "domain" fun x a => { a with domain := x },
    text "uri" fun x a => { a with uri := x },
    text? "display_name" fun x a => { a with displayName := x },
    timestamp "created_at" fun x a => { a with createdAt := x },
    timestamp "updated_at" fun x a => { a with updatedAt := x }]
  unique := [Account.uri]
  rows := Tables.accounts
  setRows t rows := { t with accounts := rows }

instance : Persistent Application where
  table := .applications
  columns := [
    text "id" fun x a => { a with id := x },
    text "name" fun x a => { a with name := x },
    text? "website" fun x a => { a with website := x },
    timestamp "created_at" fun x a => { a with createdAt := x }]
  rows := Tables.applications
  setRows t rows := { t with applications := rows }

instance : Persistent Poll where
  table := .polls
  columns := [
    text "id" fun x a => { a with id := x },
    text "status_id" fun x a => { a with statusId := x },
    texts "options" fun x a => { a with options := x },
    flag "multiple" fun x a => { a with multiple := x },
    timestamp? "expires_at" fun x a => { a with expiresAt := x },
    timestamp "created_at" fun x a => { a with createdAt := x }]
  rows := Tables.polls
  setRows t rows := { t with polls := rows }

instance : Persistent Attachment where
  table := .attachments
  columns := [
    text "id" fun x a => { a with id := x },
    text? "status_id" fun x a => { a with statusId := x },
    text "account_id" fun x a => { a with accountId := x },
    text "url" fun x a => { a with url := x },
    text "content_type" fun x a => { a with contentType := x },
    text? "description" fun x a => { a with description := x },
    timestamp "created_at" fun x a => { a with createdAt := x },
    timestamp "updated_at" fun x a => { a with updatedAt := x }]
  rows := Tables.attachments
  setRows t rows := { t with attachments := rows }

instance : Persistent Tag where
  table := .tags
  columns := [
    text "id" fun x a => { a with id := x },
    text "name" fun x a => { a with name := x },
    timestamp "created_at" fun x a => { a with createdAt := x }]
  unique := [Tag.name]
  rows := Tables.tags
  setRows t rows := { t with tags := rows }

instance : Persistent Emoji where
  table := .emojis
  columns := [
    text "id" fun x a => { a with id := x },
    text "shortcode" fun x a => { a with shortcode := x },
    text? "domain" fun x a => { a with domain := x },
    text "image_url" fun x a => { a with imageUrl := x },
    timestamp "created_at" fun x a => { a with createdAt := x }]
  rows := Tables.emojis
  setRows t rows := { t with emojis := rows }

instance : Persistent Mention where
  table := .mentions
  columns := [
    text "id" fun x a => { a with id := x },
    text "status_id" fun x a => { a with statusId := x },
    text "origin_account_id" fun x a => { a with originAccountId := x },
    text "target_account_id" fun x a => { a with targetAccountId := x },
    timestamp "created_at" fun x a => { a with createdAt := x }]
  rows := Tables.mentions
  setRows t rows := { t with mentions := rows }

instance : Persistent Thread where
  table := .threads
  columns := [
    text "id" fun x a => { a with id := x },
    timestamp "created_at" fun x a => { a with createdAt := x }]
  rows := Tables.threads
  setRows t rows := { t with threads := rows }

instance : Persistent StatusRow where
  table := .statuses
  columns := [
    text "id" fun x a => { a with id := x },
    timestamp "created_at" fun x a => { a with createdAt := x },
    timestamp "updated_at" fun x a => { a with updatedAt := x },
    text "uri" fun x a => { a with uri := x },
    text? "url" fun x a => { a with url := x },
    text "content" fun x a => { a with content := x },
    text? "content_warning" fun x a => { a with contentWarning := x },
    text "visibility" fun x a => { a with visibility := x },
    text? "language" fun x a => { a with language := x },
    flag "sensitive" fun x a => { a with isSensitive := x },
    flag "local" fun x a => { a with isLocal := x },
    text "account_id" fun x a => { a with accountId := x },
    text "account_uri" fun x a => { a with accountUri := x },
    text? "in_reply_to_id" fun x a => { a with inReplyToId := x },
    text? "in_reply_to_uri" fun x a => { a with inReplyToUri := x },
    text? "in_reply_to_account_id" fun x a => { a with inReplyToAccountId := x },
    text? "boost_of_id" fun x a => { a with boostOfId := x },
    text? "boost_of_account_id" fun x a => { a with boostOfAccountId := x },
    text? "thread_id" fun x a => { a with threadId := x },
    text? "poll_id" fun x a => { a with pollId := x },
    text? "created_with_application_id" fun x a => { a with createdWithApplicationId := x },
    texts "attachment_ids" fun x a => { a with attachmentIds := x },
    texts "tag_ids" fun x a => { a with tagIds := x },
    texts "mention_ids" fun x a => { a with mentionIds := x },
    texts "emoji_ids" fun x a => { a with emojiIds := x }]
  unique := [fun r => r.uri]
  rows := Tables.statuses
  setRows t rows := { t with statuses := rows }

namespace Tables

def require (t : Tables) (name : TableName) : Except Error Unit :=
  if t.dropped.contains name then .error (.database (.noSuchTable name.text)) else .ok ()

def named (t : Tables) (name : String) : Except Error TableName :=
  match (TableName.ofText? name).filter fun table => !t.dropped.contains table with
  | some table => .ok table
  | none => .error (.database (.noSuchTable name))

/-- Drop a table.  The catalogue stays. -/
def drop (t : Tables) (name : TableName) : Except Error Tables :=
  if name = .catalogue then .error (.database (.undroppable name.text))
  else .ok { t with dropped := name :: t.dropped }

def count (t : Tables) : TableName → Nat
  | .accounts => t.accounts.length
  | .applications => t.applications.length
  | .polls => t.polls.length
  | .attachments => t.attachments.length
  | .tags => t.tags.length
  | .emojis => t.emojis.length
  | .mentions => t.mentions.length
  | .threads => t.threads.length
  | .statuses => t.statuses.length
  | .statusTags => t.statusTags.length
  | .statusEmojis => t.statusEmojis.length
  | .threadStatuses => t.threadStatuses.length
  | .migrations => 1
  | .catalogue =>
    let kept := TableName.all.filter fun name => name ≠ .catalogue && !t.dropped.contains name
    kept.foldl (fun rows name => rows + (1 + name.indexes)) 0

variable {α : Type} [Persistent α]

def tableOf (α : Type) [Persistent α] : TableName := Persistent.table α

def conflict (a b : α) : Bool :=
  Identified.id a = Identified.id b || Persistent.unique.any fun key => key a = key b

def insert (t : Tables) (a : α) : Except Error Tables := do
  t.require (tableOf α)
  let rows := Persistent.rows t
  if rows.any fun r => conflict a r.value then throw .alreadyExists
  return Persistent.setRows t (rows ++ [{ value := a }])

/-- Overwrite one column of the row with the given id; answers the number of rows changed. -/
def overwriteIn (α : Type) [Persistent α] (t : Tables) (id column : String) (text : Option String) :
    Except Error (Nat × Tables) := do
  let rows : List (Stored α) := Persistent.rows t
  match (Persistent.columns (α := α)).find? (·.name = column.toLower) with
  | none => throw (.database (.noSuchColumn column))
  | some c =>
    match rows.find? fun r => Identified.id r.value = id with
    | none => return (0, t)
    | some r =>
      let r ← r.overwrite (tableOf α).text c text
      let others := rows.filter fun s => Identified.id s.value ≠ id
      if others.any fun s => conflict r.value s.value then throw .alreadyExists
      let rows := rows.map fun s => if Identified.id s.value = id then r else s
      return (1, Persistent.setRows t rows)

/-- Overwrite one column of a row of any table, by names in which capitals count as small letters.
The tables without ids have no row to find. -/
def overwrite (t : Tables) (table : TableName) (id column : String) (text : Option String) :
    Except Error (Nat × Tables) :=
  match table with
  | .accounts => t.overwriteIn Account id column text
  | .applications => t.overwriteIn Application id column text
  | .polls => t.overwriteIn Poll id column text
  | .attachments => t.overwriteIn Attachment id column text
  | .tags => t.overwriteIn Tag id column text
  | .emojis => t.overwriteIn Emoji id column text
  | .mentions => t.overwriteIn Mention id column text
  | .threads => t.overwriteIn Thread id column text
  | .statuses => t.overwriteIn StatusRow id column text
  | .catalogue => .error (.database (.unchangeable table.text))
  | .statusTags | .statusEmojis | .threadStatuses | .migrations =>
    let columns := match table with
      | .statusTags => ["status_id", "tag_id"]
      | .statusEmojis => ["status_id", "emoji_id"]
      | .threadStatuses => ["thread_id", "status_id"]
      | _ => ["version", "description", "installed_on", "success", "checksum", "execution_time"]
    .error (.database (.noSuchColumn (if columns.contains column.toLower then "id" else column)))

end Tables

end StatusStore.Database
