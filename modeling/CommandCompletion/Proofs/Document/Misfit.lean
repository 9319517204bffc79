import CommandCompletion.Proofs.Document.Said

/-!
# Data that are no document

A record is a misfit if it has a member that is no field, if it lacks a field that is required, or
if its arity is neither a count nor a text form of an arity. A command is also a misfit if one of its
options, positionals or subcommands is, at any depth, and fields may stand in a record or in a list
by their places (`CommandDocument.Misfit`). Decoding refuses every misfit, whatever else stands in
it.
-/

set_option autoImplicit false

namespace CommandCompletion

variable {α β : Type}

/-! ## Refusals -/

/-- A result that is a fault. -/
def Refused (result : Except DecodingFault α) : Prop :=
  ∃ fault, result = .error fault

theorem refused_bind {result : Except DecodingFault α} {rest : α → Except DecodingFault β}
    (refused : ∀ value, result = .ok value → Refused (rest value)) : Refused (result >>= rest) := by
  cases result with
  | error fault => exact ⟨fault, rfl⟩
  | ok value => exact refused value rfl

theorem Refused.bind {result : Except DecodingFault α} (refused : Refused result)
    (rest : α → Except DecodingFault β) : Refused (result >>= rest) := by
  obtain ⟨fault, rfl⟩ := refused
  exact ⟨fault, rfl⟩

theorem Refused.map {result : Except DecodingFault α} (refused : Refused result) (image : α → β) :
    Refused (result.map image) := by
  obtain ⟨fault, rfl⟩ := refused
  exact ⟨fault, rfl⟩

/-- One refusal on the way refuses the whole. -/
theorem refused_foldlM {step : β → α → Except DecodingFault β} {items : List α} {item : α}
    (member : item ∈ items) (refused : ∀ state, Refused (step state item)) (state : β) :
    Refused (items.foldlM step state) := by
  induction items generalizing state with
  | nil => cases member
  | cons first rest ih =>
    rw [List.foldlM_cons]
    rcases List.mem_cons.mp member with rfl | later
    · exact (refused state).bind _
    · exact refused_bind fun next _ => ih later next

/-- What every step keeps is kept on the whole way. -/
theorem foldlM_keeps {step : β → α → Except DecodingFault β} {kept : β → Prop} {items : List α}
    (keeps : ∀ item ∈ items, ∀ state next, step state item = .ok next → kept state → kept next)
    {state final : β} (reached : items.foldlM step state = .ok final) (start : kept state) :
    kept final := by
  induction items generalizing state with
  | nil =>
    cases reached
    exact start
  | cons first rest ih =>
    rw [List.foldlM_cons] at reached
    cases stepped : step state first with
    | error fault =>
      rw [stepped] at reached
      cases reached
    | ok next =>
      rw [stepped] at reached
      exact ih (fun item member => keeps item (List.mem_cons_of_mem _ member)) reached
        (keeps first List.mem_cons_self state next stepped start)

theorem ok_of_bind {result : Except DecodingFault α} {image : α → β} {value : β}
    (made : (result >>= fun found => .ok (image found)) = .ok value) :
    ∃ found, image found = value := by
  cases result with
  | error fault => cases made
  | ok found => exact ⟨found, Except.ok.inj made⟩

theorem Datum.field_cons_eq_ok {decode : Datum → Except DecodingFault α} {item : Datum}
    {rest : List Datum} {read : Option α × List Datum}
    (decoded : field decode (item :: rest) = .ok read) : ∃ value, read = (some value, rest) := by
  rw [field] at decoded
  cases found : decode item with
  | error fault =>
    rw [found] at decoded
    cases decoded
  | ok value =>
    rw [found] at decoded
    exact ⟨value, (Except.ok.inj decoded).symm⟩

theorem Datum.refused_once {name : String} {before : Option α} {value : Except DecodingFault α}
    (refused : Refused value) : Refused (once name before value) := by
  cases before with
  | none => exact refused.map _
  | some => exact ⟨_, rfl⟩

theorem Datum.refused_asList {decode : Datum → Except DecodingFault α} {items : List Datum}
    {item : Datum} (member : item ∈ items) (refused : Refused (decode item)) (closed : Bool) :
    Refused (asList decode (.list items closed)) := by
  have all : Refused (items.mapM decode) := by
    induction items with
    | nil => cases member
    | cons first rest ih =>
      rw [List.mapM_cons]
      rcases List.mem_cons.mp member with rfl | later
      · exact refused.bind _
      · exact refused_bind fun _ _ => (ih later).bind _
  exact all.bind _

/-! ## Misfits -/

/-- The value of a field, which is a member of a record by its name or an item of a list by its
place. -/
inductive Datum.HasField (name : String) (place : Nat) : Datum → Datum → Prop where
  | member {members : List (String × Datum)} {value : Datum} (member : (name, value) ∈ members)
      (closed : Bool) : HasField name place (.record members closed) value
  | item {items : List Datum} {value : Datum} (item : items[place]? = some value) (closed : Bool) :
      HasField name place (.list items closed) value

/-- A datum that says no option because of its fields. -/
inductive OptionDocument.Misfit : Datum → Prop where
  | unknown {members : List (String × Datum)} {name : String} {value : Datum}
      (member : (name, value) ∈ members) (unknown : name ∉ OptionFields.names) (closed : Bool) :
      Misfit (.record members closed)
  | unflagged {members : List (String × Datum)} (missing : ∀ value, ("flags", value) ∉ members)
      (closed : Bool) : Misfit (.record members closed)
  | arity {datum value : Datum} (field : datum.HasField "nargs" 1 value)
      (unread : ∀ arity : Arity, ¬arity.SaidBy value) : Misfit datum

/-- A datum that says no positional because of its fields. -/
inductive PositionalDocument.Misfit : Datum → Prop where
  | unknown {members : List (String × Datum)} {name : String} {value : Datum}
      (member : (name, value) ∈ members) (unknown : name ∉ PositionalFields.names)
      (closed : Bool) : Misfit (.record members closed)
  | arity {datum value : Datum} (field : datum.HasField "nargs" 1 value)
      (unread : ∀ arity : Arity, ¬arity.SaidBy value) : Misfit datum

/-- A datum that says no command because of its fields, or of those of an option, a positional or
a command in it. -/
inductive CommandDocument.Misfit : Datum → Prop where
  | unknown {members : List (String × Datum)} {name : String} {value : Datum}
      (member : (name, value) ∈ members) (unknown : name ∉ CommandFields.names) (closed : Bool) :
      Misfit (.record members closed)
  | unnamed {members : List (String × Datum)} (missing : ∀ value, ("name", value) ∉ members)
      (closed : Bool) : Misfit (.record members closed)
  | option {datum item : Datum} {items : List Datum} {closed : Bool}
      (field : datum.HasField "options" 1 (.list items closed)) (member : item ∈ items)
      (misfit : OptionDocument.Misfit item) : Misfit datum
  | positional {datum item : Datum} {items : List Datum} {closed : Bool}
      (field : datum.HasField "positionals" 2 (.list items closed)) (member : item ∈ items)
      (misfit : PositionalDocument.Misfit item) : Misfit datum
  | subcommand {datum item : Datum} {items : List Datum} {closed : Bool}
      (field : datum.HasField "subcommands" 3 (.list items closed)) (member : item ∈ items)
      (misfit : Misfit item) : Misfit datum

/-! ## Misfits are refused -/

theorem Arity.refused_decode {value : Datum} (unread : ∀ arity : Arity, ¬arity.SaidBy value) :
    Refused (Arity.decode value) := by
  cases read : Arity.decode value with
  | error fault => exact ⟨fault, rfl⟩
  | ok arity => exact absurd (Arity.decode_eq_ok_iff.mp read) (unread arity)

theorem OptionFields.refused_add_unknown {name : String} (unknown : name ∉ names)
    (fields : OptionFields) (value : Datum) : Refused (fields.add name value) := by
  unfold add
  split
  · exact absurd (by decide) unknown
  · exact absurd (by decide) unknown
  · exact absurd (by decide) unknown
  · exact absurd (by decide) unknown
  · exact ⟨_, rfl⟩

/-- Only its own member gives an option its flags. -/
theorem OptionFields.flags_of_add {fields next : OptionFields} {name : String} {value : Datum}
    (other : name ≠ "flags") (added : fields.add name value = .ok next)
    (unflagged : fields.flags = none) : next.flags = none := by
  unfold add at added
  split at added
  · exact absurd rfl other
  · obtain ⟨_, rfl⟩ := ok_of_bind added
    exact unflagged
  · obtain ⟨_, rfl⟩ := ok_of_bind added
    exact unflagged
  · obtain ⟨_, rfl⟩ := ok_of_bind added
    exact unflagged
  · cases added

theorem exists_of_second {items : List α} {value : α} (found : items[1]? = some value) :
    ∃ first rest, items = first :: value :: rest := by
  rcases items with _ | ⟨first, _ | ⟨second, rest⟩⟩
  · cases found
  · cases found
  · cases Option.some.inj found
    exact ⟨first, rest, rfl⟩

theorem Datum.refused_field {decode : Datum → Except DecodingFault α} {value : Datum}
    (refused : Refused (decode value)) (rest : List Datum) :
    Refused (Datum.field decode (value :: rest)) :=
  refused.map _

theorem OptionDocument.refused_of_misfit {format : DocumentFormat} {datum : Datum}
    (misfit : Misfit datum) : Refused (OptionDocument.decode format datum) := by
  cases misfit with
  | unknown member unknown closed =>
    exact (refused_foldlM member
      (fun fields => OptionFields.refused_add_unknown unknown fields _) _).bind _
  | @unflagged members missing closed =>
    refine refused_bind fun fields met => refused_bind fun _ _ => ?_
    have keeps : ∀ member ∈ members, ∀ fields next : OptionFields,
        fields.add member.1 member.2 = .ok next → fields.flags = none → next.flags = none :=
      fun member found fields next added =>
        OptionFields.flags_of_add (fun same => missing member.2 (same ▸ found)) added
    have unflagged : fields.flags = none := foldlM_keeps keeps met rfl
    rw [OptionFields.finish, unflagged]
    exact ⟨_, rfl⟩
  | arity field unread =>
    have refused := Arity.refused_decode unread
    cases field with
    | member member closed =>
      exact (refused_foldlM member (fun fields => (Datum.refused_once refused).bind _) _).bind _
    | @item items value item closed =>
      obtain ⟨flags, rest, rfl⟩ := exists_of_second item
      refine refused_bind fun field read => ?_
      obtain ⟨_, rfl⟩ := Datum.field_cons_eq_ok read
      exact refused_bind fun _ _ => (Datum.refused_field refused rest).bind _

theorem PositionalFields.refused_add_unknown {name : String} (unknown : name ∉ names)
    (fields : PositionalFields) (value : Datum) : Refused (fields.add name value) := by
  unfold add
  split
  · exact absurd (by decide) unknown
  · exact absurd (by decide) unknown
  · exact absurd (by decide) unknown
  · exact absurd (by decide) unknown
  · exact ⟨_, rfl⟩

theorem PositionalDocument.refused_of_misfit {format : DocumentFormat} {datum : Datum}
    (misfit : Misfit datum) : Refused (PositionalDocument.decode format datum) := by
  cases misfit with
  | unknown member unknown closed =>
    exact (refused_foldlM member
      (fun fields => PositionalFields.refused_add_unknown unknown fields _) _).bind _
  | arity field unread =>
    have refused := Arity.refused_decode unread
    cases field with
    | member member closed =>
      exact (refused_foldlM member (fun fields => (Datum.refused_once refused).bind _) _).bind _
    | @item items value item closed =>
      obtain ⟨name, rest, rfl⟩ := exists_of_second item
      refine refused_bind fun field read => ?_
      obtain ⟨_, rfl⟩ := Datum.field_cons_eq_ok read
      exact (Datum.refused_field refused rest).bind _

namespace CommandDocument

variable {format : DocumentFormat}

theorem refused_decodeMembers_unknown {name : String} (unknown : name ∉ CommandFields.names)
    (fields : CommandFields) (value : Datum) :
    Refused (decodeMembers format fields [(name, value)]) := by
  rw [decodeMembers.eq_def]
  simp only
  split
  · exact absurd (by decide) unknown
  · exact absurd (by decide) unknown
  · exact absurd (by decide) unknown
  · exact absurd (by decide) unknown
  · exact ⟨_, rfl⟩

/-- Only its own member gives a command its name. -/
theorem name_of_decodeMembers {fields next : CommandFields} {name : String} {value : Datum}
    (other : name ≠ "name") (added : decodeMembers format fields [(name, value)] = .ok next)
    (unnamed : fields.name = none) : next.name = none := by
  rw [decodeMembers.eq_def] at added
  simp only at added
  split at added
  · exact absurd rfl other
  · obtain ⟨_, rfl⟩ := ok_of_bind added
    exact unnamed
  · obtain ⟨_, rfl⟩ := ok_of_bind added
    exact unnamed
  · obtain ⟨_, rfl⟩ := ok_of_bind added
    exact unnamed
  · cases added

theorem refused_decodeAll {items : List Datum} {item : Datum} (member : item ∈ items)
    (refused : Refused (decode format item)) : Refused (decodeAll format items) := by
  induction items with
  | nil => cases member
  | cons first rest ih =>
    rw [decodeAll]
    rcases List.mem_cons.mp member with rfl | later
    · exact refused.bind _
    · exact refused_bind fun _ _ => (ih later).bind _

/-- A record with a member that is refused behind any others. -/
theorem refused_of_member {members : List (String × Datum)} {name : String} {value : Datum}
    (member : (name, value) ∈ members)
    (refused : ∀ fields, Refused (decodeMembers format fields [(name, value)])) (closed : Bool) :
    Refused (decode format (.record members closed)) := by
  rw [decode, CommandFields.decodeMembers_eq_foldlM]
  exact (refused_foldlM member refused _).bind _

theorem refused_of_options {datum value : Datum} (field : datum.HasField "options" 1 value)
    (refused : Refused (value.asList (OptionDocument.decode format))) :
    Refused (decode format datum) := by
  cases field with
  | member member closed =>
    exact refused_of_member member (fun fields => (Datum.refused_once refused).bind _) closed
  | @item items value item closed =>
    rw [decode]
    refine Refused.bind ?_ _
    obtain ⟨_, rest, rfl⟩ := exists_of_second item
    -- The fields behind it are worked off only if they are there.
    rcases rest with _ | ⟨_, _ | ⟨_, _⟩⟩ <;> exact refused_bind fun _ _ => refused.bind _

theorem refused_of_positionals {datum value : Datum} (field : datum.HasField "positionals" 2 value)
    (refused : Refused (value.asList (PositionalDocument.decode format))) :
    Refused (decode format datum) := by
  cases field with
  | member member closed =>
    exact refused_of_member member (fun fields => (Datum.refused_once refused).bind _) closed
  | @item items value item closed =>
    rw [decode]
    refine Refused.bind ?_ _
    rcases items with _ | ⟨_, later⟩
    · cases item
    obtain ⟨_, rest, rfl⟩ := exists_of_second (show later[1]? = some value from item)
    cases rest <;> exact refused_bind fun _ _ => refused_bind fun _ _ => refused.bind _

theorem refused_of_subcommands {datum value : Datum} (field : datum.HasField "subcommands" 3 value)
    (refused : Refused (decodeList format value)) : Refused (decode format datum) := by
  cases field with
  | member member closed =>
    exact refused_of_member member (fun fields => (Datum.refused_once refused).bind _) closed
  | @item items value item closed =>
    rw [decode]
    refine Refused.bind ?_ _
    rcases items with _ | ⟨_, _ | ⟨_, later⟩⟩
    · cases item
    · cases item
    obtain ⟨_, rest, rfl⟩ := exists_of_second (show later[1]? = some value from item)
    exact refused_bind fun _ _ => refused_bind fun _ _ => refused_bind fun _ _ => refused.bind _

/-- **Misfits are refused.** Data with a member that is no field, without a required field, or with
an arity that is none are decoded as no document, at whatever depth this is. -/
theorem refused_of_misfit {datum : Datum} (misfit : Misfit datum) :
    Refused (decode format datum) := by
  induction misfit with
  | unknown member unknown closed =>
    exact refused_of_member member (fun fields => refused_decodeMembers_unknown unknown fields _) _
  | @unnamed members missing closed =>
    rw [decode, CommandFields.decodeMembers_eq_foldlM]
    refine refused_bind fun fields met => refused_bind fun _ _ => ?_
    have keeps : ∀ member ∈ members, ∀ fields next : CommandFields,
        decodeMembers format fields [member] = .ok next → fields.name = none → next.name = none :=
      fun member found fields next added =>
        name_of_decodeMembers (fun same => missing member.2 (same ▸ found)) added
    have unnamed : fields.name = none := foldlM_keeps keeps met rfl
    rw [CommandFields.finish, unnamed]
    exact ⟨_, rfl⟩
  | option field member misfit =>
    exact refused_of_options field
      (Datum.refused_asList member (OptionDocument.refused_of_misfit misfit) _)
  | positional field member misfit =>
    exact refused_of_positionals field
      (Datum.refused_asList member (PositionalDocument.refused_of_misfit misfit) _)
  | subcommand field member misfit ih =>
    refine refused_of_subcommands field ?_
    rw [decodeList]
    exact (refused_decodeAll member ih).bind _

end CommandDocument

end CommandCompletion
