/-
  StatusStore/Proofs/Database/Columns.lean
  ========================================
  **What an update writes into a row.**  The fields of a status row fall into
  sixteen column groups, the time of update, and the five fields of its origin,
  which no update writes.  A row is known when all of these are.

  Main statements: `agrees_foldl_write` (the listed groups come from the source,
  and the others stay) and `updateRow_eq_source_iff` (when the row is as the source
  is, in the groups that were not listed too).
-/
import StatusStore.Database.Statement

namespace StatusStore

/-! ### Rows compared group by group -/

def StatusColumn.Agrees (c : StatusColumn) (a b : StatusRow) : Prop :=
  match c with
  | .uri => a.uri = b.uri
  | .url => a.url = b.url
  | .content => a.content = b.content
  | .contentWarning => a.contentWarning = b.contentWarning
  | .visibility => a.visibility = b.visibility
  | .language => a.language = b.language
  | .sensitive => a.isSensitive = b.isSensitive
  | .inReplyTo =>
    a.inReplyToId = b.inReplyToId ∧ a.inReplyToUri = b.inReplyToUri ∧
      a.inReplyToAccountId = b.inReplyToAccountId
  | .boostOf => a.boostOfId = b.boostOfId ∧ a.boostOfAccountId = b.boostOfAccountId
  | .threadId => a.threadId = b.threadId
  | .pollId => a.pollId = b.pollId
  | .createdWithApplicationId => a.createdWithApplicationId = b.createdWithApplicationId
  | .attachmentIds => a.attachmentIds = b.attachmentIds
  | .tagIds => a.tagIds = b.tagIds
  | .mentionIds => a.mentionIds = b.mentionIds
  | .emojiIds => a.emojiIds = b.emojiIds

namespace StatusRow

/-- Whether two rows have what no update writes in common. -/
structure SameOrigin (a b : StatusRow) : Prop where
  id : a.id = b.id
  createdAt : a.createdAt = b.createdAt
  isLocal : a.isLocal = b.isLocal
  accountId : a.accountId = b.accountId
  accountUri : a.accountUri = b.accountUri

/-- Whether two rows hold the same in everything but the given column groups and the time of
update. -/
structure AgreesOutside (columns : List StatusColumn) (a b : StatusRow) : Prop where
  origin : SameOrigin a b
  unlisted : ∀ c, c ∉ columns → c.Agrees a b

instance (a b : StatusRow) : Decidable (SameOrigin a b) :=
  decidable_of_iff (a.id = b.id ∧ a.createdAt = b.createdAt ∧ a.isLocal = b.isLocal ∧
    a.accountId = b.accountId ∧ a.accountUri = b.accountUri)
    ⟨fun ⟨hid, hcreated, hlocal, haccount, huri⟩ => ⟨hid, hcreated, hlocal, haccount, huri⟩,
      fun ⟨hid, hcreated, hlocal, haccount, huri⟩ => ⟨hid, hcreated, hlocal, haccount, huri⟩⟩

theorem SameOrigin.refl (a : StatusRow) : SameOrigin a a := ⟨rfl, rfl, rfl, rfl, rfl⟩

theorem SameOrigin.symm {a b : StatusRow} (h : SameOrigin a b) : SameOrigin b a :=
  ⟨h.id.symm, h.createdAt.symm, h.isLocal.symm, h.accountId.symm, h.accountUri.symm⟩

theorem SameOrigin.trans {a b c : StatusRow} (hab : SameOrigin a b) (hbc : SameOrigin b c) :
    SameOrigin a c :=
  ⟨hab.id.trans hbc.id, hab.createdAt.trans hbc.createdAt, hab.isLocal.trans hbc.isLocal,
    hab.accountId.trans hbc.accountId, hab.accountUri.trans hbc.accountUri⟩

end StatusRow

open StatusRow

namespace StatusColumn

theorem Agrees.refl (c : StatusColumn) (a : StatusRow) : c.Agrees a a := by
  cases c <;> simp [Agrees]

theorem Agrees.symm {c : StatusColumn} {a b : StatusRow} (h : c.Agrees a b) : c.Agrees b a := by
  cases c <;> simp_all [Agrees]

theorem Agrees.trans {c : StatusColumn} {a b d : StatusRow} (hab : c.Agrees a b)
    (hbd : c.Agrees b d) : c.Agrees a d := by
  cases c <;> simp_all [Agrees]

/-- A row is the sum of its origin, its time of update and its column groups. -/
theorem eq_of_agrees {a b : StatusRow} (origin : SameOrigin a b)
    (updatedAt : a.updatedAt = b.updatedAt)
    (hagrees : ∀ c : StatusColumn, c.Agrees a b) : a = b := by
  obtain ⟨hid, hcreated, hlocal, haccount, haccountUri⟩ := origin
  obtain ⟨hreply, hreplyUri, hreplyAccount⟩ := hagrees .inReplyTo
  obtain ⟨hboost, hboostAccount⟩ := hagrees .boostOf
  have huri := hagrees .uri
  have hurl := hagrees .url
  have hcontent := hagrees .content
  have hwarning := hagrees .contentWarning
  have hvisibility := hagrees .visibility
  have hlanguage := hagrees .language
  have hsensitive := hagrees .sensitive
  have hthread := hagrees .threadId
  have hpoll := hagrees .pollId
  have happlication := hagrees .createdWithApplicationId
  have hattachments := hagrees .attachmentIds
  have htags := hagrees .tagIds
  have hmentions := hagrees .mentionIds
  have hemojis := hagrees .emojiIds
  rcases a with ⟨⟨⟩⟩
  rcases b with ⟨⟨⟩⟩
  simp_all [Agrees]

/-! ### Writing groups -/

theorem sameOrigin_write (c : StatusColumn) (source row : StatusRow) :
    SameOrigin row (c.write source row) := by
  cases c <;> exact ⟨rfl, rfl, rfl, rfl, rfl⟩

theorem updatedAt_write (c : StatusColumn) (source row : StatusRow) :
    (c.write source row).updatedAt = row.updatedAt := by
  cases c <;> rfl

theorem agrees_write_self (c : StatusColumn) (source row : StatusRow) :
    c.Agrees source (c.write source row) := by
  cases c <;> simp [Agrees, write]

theorem agrees_write_of_ne {c d : StatusColumn} (h : d ≠ c) (source row : StatusRow) :
    d.Agrees row (c.write source row) := by
  cases c <;> cases d <;> simp_all [Agrees, write]

variable (source row : StatusRow) (columns : List StatusColumn)

theorem sameOrigin_foldl_write :
    SameOrigin row (columns.foldl (fun row c => c.write source row) row) := by
  induction columns generalizing row with
  | nil => exact .refl row
  | cons c columns ih => exact (c.sameOrigin_write source row).trans (ih _)

theorem updatedAt_foldl_write :
    (columns.foldl (fun row c => c.write source row) row).updatedAt = row.updatedAt := by
  induction columns generalizing row with
  | nil => rfl
  | cons c columns ih => exact (ih _).trans (c.updatedAt_write source row)

/-- The listed groups come from the source, in whatever order and however often they are listed, and
the others stay. -/
theorem agrees_foldl_write (c : StatusColumn) :
    c.Agrees (if c ∈ columns then source else row)
      (columns.foldl (fun row c => c.write source row) row) := by
  induction columns generalizing row with
  | nil => exact .refl c row
  | cons d columns ih =>
    have hrest := ih (d.write source row)
    rw [List.foldl_cons]
    by_cases hlisted : c ∈ columns
    · simpa [hlisted] using hrest
    · rw [if_neg hlisted] at hrest
      by_cases hfirst : c = d
      · subst hfirst
        rw [if_pos List.mem_cons_self]
        exact (c.agrees_write_self source row).trans hrest
      · rw [if_neg (by simp [hfirst, hlisted])]
        exact (agrees_write_of_ne hfirst source row).trans hrest

end StatusColumn

namespace Database

open StatusColumn

variable {source : StatusRow} {columns : List StatusColumn} {row : Stored StatusRow}

def stamped (source row : StatusRow) : StatusRow := { row with updatedAt := source.updatedAt }

theorem sameOrigin_stamped (source row : StatusRow) : SameOrigin row (stamped source row) :=
  ⟨rfl, rfl, rfl, rfl, rfl⟩

theorem agrees_stamped (c : StatusColumn) (source row : StatusRow) :
    c.Agrees row (stamped source row) := by
  cases c <;> simp [Agrees, stamped]

theorem updateRow_value (source : StatusRow) (columns : List StatusColumn)
    (row : Stored StatusRow) : (updateRow source columns row).value =
      columns.foldl (fun row c => c.write source row) (stamped source row.value) :=
  rfl

theorem sameOrigin_updateRow (source : StatusRow) (columns : List StatusColumn)
    (row : Stored StatusRow) : SameOrigin row.value (updateRow source columns row).value := by
  rw [updateRow_value]
  exact (sameOrigin_stamped source row.value).trans (sameOrigin_foldl_write source _ columns)

theorem updatedAt_updateRow (source : StatusRow) (columns : List StatusColumn)
    (row : Stored StatusRow) :
    (updateRow source columns row).value.updatedAt = source.updatedAt := by
  rw [updateRow_value, updatedAt_foldl_write]
  rfl

theorem agrees_updateRow (source : StatusRow) (columns : List StatusColumn)
    (row : Stored StatusRow) (c : StatusColumn) :
    c.Agrees (if c ∈ columns then source else row.value) (updateRow source columns row).value := by
  have hwritten := agrees_foldl_write source (stamped source row.value) columns c
  rw [updateRow_value]
  by_cases hc : c ∈ columns
  · rw [if_pos hc] at hwritten ⊢
    exact hwritten
  · rw [if_neg hc] at hwritten ⊢
    exact (agrees_stamped c source row.value).trans hwritten

/-- An updated row is the source just when the source agreed with it in all that was not written. -/
theorem updateRow_eq_source_iff :
    (updateRow source columns row).value = source ↔ AgreesOutside columns source row.value := by
  constructor
  · intro hsame
    refine ⟨hsame ▸ (sameOrigin_updateRow source columns row).symm, fun c hc => ?_⟩
    have hstays := agrees_updateRow source columns row c
    rw [if_neg hc, hsame] at hstays
    exact hstays.symm
  · rintro ⟨horigin, hunlisted⟩
    refine eq_of_agrees ((sameOrigin_updateRow source columns row).symm.trans horigin.symm)
      (updatedAt_updateRow source columns row) fun c => ?_
    have hwritten := agrees_updateRow source columns row c
    split at hwritten
    · exact hwritten.symm
    · rename_i hc
      exact hwritten.symm.trans (hunlisted c hc).symm

end Database

end StatusStore
