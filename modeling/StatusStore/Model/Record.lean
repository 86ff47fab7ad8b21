/-
  StatusStore/Model/Record.lean
  =============================
  **The records around a status**: its author, what it was written with, its
  poll and media, and what its text refers to.  Records name each other by id.
-/
import StatusStore.Model.Document

namespace StatusStore

class Identified (α : Type) where
  id : α → String

structure Account where
  id : String
  username : String
  /-- Absent for accounts of this server. -/
  domain : Option String
  uri : String
  displayName : Option String
  createdAt : Timestamp
  updatedAt : Timestamp
deriving DecidableEq, Repr, Inhabited

structure Application where
  id : String
  name : String
  website : Option String
  createdAt : Timestamp
deriving DecidableEq, Repr

structure Poll where
  id : String
  statusId : String
  options : List String
  multiple : Bool
  expiresAt : Option Timestamp
  createdAt : Timestamp
deriving DecidableEq, Repr

/-- A media file.  It is uploaded before its status exists, so `statusId` may be absent. -/
structure Attachment where
  id : String
  statusId : Option String
  accountId : String
  url : String
  contentType : String
  description : Option String
  createdAt : Timestamp
  updatedAt : Timestamp
deriving DecidableEq, Repr

structure Tag where
  id : String
  name : String
  createdAt : Timestamp
deriving DecidableEq, Repr

structure Emoji where
  id : String
  shortcode : String
  /-- Absent for emojis of this server. -/
  domain : Option String
  imageUrl : String
  createdAt : Timestamp
deriving DecidableEq, Repr

structure Mention where
  id : String
  statusId : String
  originAccountId : String
  targetAccountId : String
  createdAt : Timestamp
deriving DecidableEq, Repr

structure Thread where
  id : String
  createdAt : Timestamp
deriving DecidableEq, Repr

instance : Identified Account := ⟨Account.id⟩
instance : Identified Application := ⟨Application.id⟩
instance : Identified Poll := ⟨Poll.id⟩
instance : Identified Attachment := ⟨Attachment.id⟩
instance : Identified Tag := ⟨Tag.id⟩
instance : Identified Emoji := ⟨Emoji.id⟩
instance : Identified Mention := ⟨Mention.id⟩
instance : Identified Thread := ⟨Thread.id⟩

/-! ### Records as documents -/

open Document (ofTimestamp ofOption ofTexts)
open Fields (required optional text text? timestamp)

instance : Documented Account where
  ofDocument? := Fields.readAll? do
    return ⟨← text "id", ← text "username", ← text? "domain", ← text "uri",
      ← text? "display_name", ← timestamp "created_at", ← timestamp "updated_at"⟩
  toDocument a := .object [
    ("id", .text a.id), ("username", .text a.username), ("domain", ofOption .text a.domain),
    ("uri", .text a.uri), ("display_name", ofOption .text a.displayName),
    ("created_at", ofTimestamp a.createdAt), ("updated_at", ofTimestamp a.updatedAt)]

instance : Documented Application where
  ofDocument? := Fields.readAll? do
    return ⟨← text "id", ← text "name", ← text? "website", ← timestamp "created_at"⟩
  toDocument a := .object [
    ("id", .text a.id), ("name", .text a.name), ("website", ofOption .text a.website),
    ("created_at", ofTimestamp a.createdAt)]

instance : Documented Poll where
  ofDocument? := Fields.readAll? do
    return ⟨← text "id", ← text "status_id", ← required "options" Document.texts?,
      ← required "multiple" Document.bool?, ← optional "expires_at" Document.timestamp?,
      ← timestamp "created_at"⟩
  toDocument p := .object [
    ("id", .text p.id), ("status_id", .text p.statusId), ("options", ofTexts p.options),
    ("multiple", .bool p.multiple), ("expires_at", ofOption ofTimestamp p.expiresAt),
    ("created_at", ofTimestamp p.createdAt)]

instance : Documented Attachment where
  ofDocument? := Fields.readAll? do
    return ⟨← text "id", ← text? "status_id", ← text "account_id", ← text "url",
      ← text "content_type", ← text? "description", ← timestamp "created_at",
      ← timestamp "updated_at"⟩
  toDocument a := .object [
    ("id", .text a.id), ("status_id", ofOption .text a.statusId),
    ("account_id", .text a.accountId), ("url", .text a.url),
    ("content_type", .text a.contentType), ("description", ofOption .text a.description),
    ("created_at", ofTimestamp a.createdAt), ("updated_at", ofTimestamp a.updatedAt)]

instance : Documented Tag where
  ofDocument? := Fields.readAll? do
    return ⟨← text "id", ← text "name", ← timestamp "created_at"⟩
  toDocument t := .object [
    ("id", .text t.id), ("name", .text t.name), ("created_at", ofTimestamp t.createdAt)]

instance : Documented Emoji where
  ofDocument? := Fields.readAll? do
    return ⟨← text "id", ← text "shortcode", ← text? "domain", ← text "image_url",
      ← timestamp "created_at"⟩
  toDocument e := .object [
    ("id", .text e.id), ("shortcode", .text e.shortcode), ("domain", ofOption .text e.domain),
    ("image_url", .text e.imageUrl), ("created_at", ofTimestamp e.createdAt)]

instance : Documented Mention where
  ofDocument? := Fields.readAll? do
    return ⟨← text "id", ← text "status_id", ← text "origin_account_id",
      ← text "target_account_id", ← timestamp "created_at"⟩
  toDocument m := .object [
    ("id", .text m.id), ("status_id", .text m.statusId),
    ("origin_account_id", .text m.originAccountId),
    ("target_account_id", .text m.targetAccountId), ("created_at", ofTimestamp m.createdAt)]

instance : Documented Thread where
  ofDocument? := Fields.readAll? do
    return ⟨← text "id", ← timestamp "created_at"⟩
  toDocument t := .object [("id", .text t.id), ("created_at", ofTimestamp t.createdAt)]

end StatusStore
