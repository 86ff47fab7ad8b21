/-
  StatusStore/Model/Status.lean
  =============================
  **Statuses.**  What is stored of a status is its row: its own fields, and the
  ids of what it refers to.  A status adds the fetched records to that; they are
  never written, and `barebones` is what is left of a status without them.

  Main statements: `ofRow_toRow` says that the stored row keeps of a status what
  `barebones` keeps, and nothing else; `barebones_eq_self_iff` says that a status is
  barebones just if none of its parts has a record attached.
-/
import StatusStore.Model.Relation

namespace StatusStore

/-- The fields of a status that are stored as they are. -/
structure StatusFields where
  id : String
  createdAt : Timestamp
  updatedAt : Timestamp
  /-- Names the status everywhere. -/
  uri : String
  /-- The page of the status, if it differs from `uri`. -/
  url : Option String := none
  content : String
  contentWarning : Option String := none
  visibility : String := "public"
  language : Option String := none
  isSensitive : Bool := false
  /-- Whether it was written on this server. -/
  isLocal : Bool
  accountId : String
  accountUri : String
  inReplyToId : Option String := none
  inReplyToUri : Option String := none
  inReplyToAccountId : Option String := none
  boostOfId : Option String := none
  boostOfAccountId : Option String := none
  threadId : Option String := none
  pollId : Option String := none
  createdWithApplicationId : Option String := none
deriving DecidableEq, Repr, Inhabited

structure StatusRow extends StatusFields where
  attachmentIds : List String := []
  tagIds : List String := []
  mentionIds : List String := []
  emojiIds : List String := []
deriving DecidableEq, Repr, Inhabited

/-- A status with whatever has been fetched for it. -/
structure Status extends StatusFields where
  attachments : Relation Attachment := .unset
  tags : Relation Tag := .unset
  mentions : Relation Mention := .unset
  emojis : Relation Emoji := .unset
  account : Option Account := none
  inReplyTo : Option Status := none
  inReplyToAccount : Option Account := none
  boostOf : Option Status := none
  boostOfAccount : Option Account := none
  poll : Option Poll := none
  createdWithApplication : Option Application := none
deriving Repr, Inhabited

instance : Identified Status := ⟨fun s => s.id⟩

namespace Status

def ofRow (row : StatusRow) : Status where
  toStatusFields := row.toStatusFields
  attachments := .ofIds row.attachmentIds
  tags := .ofIds row.tagIds
  mentions := .ofIds row.mentionIds
  emojis := .ofIds row.emojiIds

def toRow (s : Status) : StatusRow where
  toStatusFields := s.toStatusFields
  attachmentIds := s.attachments.toIds
  tagIds := s.tags.toIds
  mentionIds := s.mentions.toIds
  emojiIds := s.emojis.toIds

/-- The status without anything fetched. -/
def barebones (s : Status) : Status where
  toStatusFields := s.toStatusFields
  attachments := s.attachments.idsOnly
  tags := s.tags.idsOnly
  mentions := s.mentions.idsOnly
  emojis := s.emojis.idsOnly

/-- No part of the status has a record attached. -/
structure HasNoRecords (s : Status) : Prop where
  attachments : s.attachments.items = []
  tags : s.tags.items = []
  mentions : s.mentions.items = []
  emojis : s.emojis.items = []
  account : s.account = none
  inReplyTo : s.inReplyTo = none
  inReplyToAccount : s.inReplyToAccount = none
  boostOf : s.boostOf = none
  boostOfAccount : s.boostOfAccount = none
  poll : s.poll = none
  createdWithApplication : s.createdWithApplication = none

/-- None of the lists of the status is there and empty. -/
structure IsTidy (s : Status) : Prop where
  attachments : s.attachments.IsTidy
  tags : s.tags.IsTidy
  mentions : s.mentions.IsTidy
  emojis : s.emojis.IsTidy

theorem barebones_eq_self_iff {s : Status} : s.barebones = s ↔ s.HasNoRecords ∧ s.IsTidy := by
  constructor
  · intro h
    obtain ⟨hattachments, attachments⟩ :=
      Relation.idsOnly_eq_self_iff.1 (congrArg Status.attachments h)
    obtain ⟨htags, tags⟩ := Relation.idsOnly_eq_self_iff.1 (congrArg Status.tags h)
    obtain ⟨hmentions, mentions⟩ := Relation.idsOnly_eq_self_iff.1 (congrArg Status.mentions h)
    obtain ⟨hemojis, emojis⟩ := Relation.idsOnly_eq_self_iff.1 (congrArg Status.emojis h)
    refine ⟨⟨hattachments, htags, hmentions, hemojis, ?_, ?_, ?_, ?_, ?_, ?_, ?_⟩,
      ⟨attachments, tags, mentions, emojis⟩⟩
    all_goals
      rw [← h]
      rfl
  · rintro ⟨h, tidy⟩
    have hattachments := Relation.idsOnly_eq_self_iff.2 ⟨h.attachments, tidy.attachments⟩
    have htags := Relation.idsOnly_eq_self_iff.2 ⟨h.tags, tidy.tags⟩
    have hmentions := Relation.idsOnly_eq_self_iff.2 ⟨h.mentions, tidy.mentions⟩
    have hemojis := Relation.idsOnly_eq_self_iff.2 ⟨h.emojis, tidy.emojis⟩
    cases s
    obtain ⟨-, -, -, -, rfl, rfl, rfl, rfl, rfl, rfl, rfl⟩ := h
    simp only [barebones, hattachments, htags, hmentions, hemojis]

@[simp] theorem ofRow_toRow (s : Status) : ofRow s.toRow = s.barebones := rfl

@[simp] theorem toRow_ofRow (row : StatusRow) : (ofRow row).toRow = row := by
  simp [ofRow, toRow]

theorem toRow_barebones (s : Status) : s.barebones.toRow = s.toRow := by
  rw [← ofRow_toRow, toRow_ofRow]

@[simp] theorem barebones_barebones (s : Status) : s.barebones.barebones = s.barebones := by
  simp [barebones]

@[simp] theorem barebones_ofRow (row : StatusRow) : (ofRow row).barebones = ofRow row := by
  rw [← ofRow_toRow, toRow_ofRow]

def withoutSlashes (s : String) : String :=
  String.ofList (s.toList.reverse.dropWhile (· = '/')).reverse

def create (id : String) (author : Account) (content : String) (now : Timestamp) : Status where
  id
  createdAt := now
  updatedAt := now
  uri := withoutSlashes author.uri ++ "/statuses/" ++ id
  content
  isLocal := author.domain.isNone
  accountId := author.id
  accountUri := author.uri

def replyTo (s parent : Status) : Status :=
  { s with
    inReplyToId := some parent.id
    inReplyToUri := some parent.uri
    inReplyToAccountId := some parent.accountId }

def boosting (s target : Status) : Status :=
  { s with boostOfId := some target.id, boostOfAccountId := some target.accountId }

end Status

/-- The parts of a stored status that an update may name. -/
inductive StatusColumn
  | uri
  | url
  | content
  | contentWarning
  | visibility
  | language
  | sensitive
  /-- The id, uri and account of the parent. -/
  | inReplyTo
  /-- The id and account of the boosted status. -/
  | boostOf
  | threadId
  | pollId
  | createdWithApplicationId
  | attachmentIds
  | tagIds
  | mentionIds
  | emojiIds
deriving DecidableEq, Repr

namespace StatusColumn

def all : List StatusColumn := [
  .uri, .url, .content, .contentWarning, .visibility, .language, .sensitive, .inReplyTo,
  .boostOf, .threadId, .pollId, .createdWithApplicationId, .attachmentIds, .tagIds,
  .mentionIds, .emojiIds]

def name : StatusColumn → String
  | .uri => "Uri"
  | .url => "Url"
  | .content => "Content"
  | .contentWarning => "ContentWarning"
  | .visibility => "Visibility"
  | .language => "Language"
  | .sensitive => "Sensitive"
  | .inReplyTo => "InReplyTo"
  | .boostOf => "BoostOf"
  | .threadId => "ThreadId"
  | .pollId => "PollId"
  | .createdWithApplicationId => "CreatedWithApplicationId"
  | .attachmentIds => "AttachmentIds"
  | .tagIds => "TagIds"
  | .mentionIds => "MentionIds"
  | .emojiIds => "EmojiIds"

def ofName? (s : String) : Option StatusColumn := all.find? (·.name = s)

/-- `row` with this column group taken from `source`. -/
def write (c : StatusColumn) (source row : StatusRow) : StatusRow :=
  match c with
  | .uri => { row with uri := source.uri }
  | .url => { row with url := source.url }
  | .content => { row with content := source.content }
  | .contentWarning => { row with contentWarning := source.contentWarning }
  | .visibility => { row with visibility := source.visibility }
  | .language => { row with language := source.language }
  | .sensitive => { row with isSensitive := source.isSensitive }
  | .inReplyTo =>
    { row with
      inReplyToId := source.inReplyToId
      inReplyToUri := source.inReplyToUri
      inReplyToAccountId := source.inReplyToAccountId }
  | .boostOf =>
    { row with boostOfId := source.boostOfId, boostOfAccountId := source.boostOfAccountId }
  | .threadId => { row with threadId := source.threadId }
  | .pollId => { row with pollId := source.pollId }
  | .createdWithApplicationId =>
    { row with createdWithApplicationId := source.createdWithApplicationId }
  | .attachmentIds => { row with attachmentIds := source.attachmentIds }
  | .tagIds => { row with tagIds := source.tagIds }
  | .mentionIds => { row with mentionIds := source.mentionIds }
  | .emojiIds => { row with emojiIds := source.emojiIds }

end StatusColumn

end StatusStore
