import SheetCompiler.Proofs.Rows.Conformance

/-!
# Rows read with types of other headers

A walk holds the type that it is given against its constructs by numbers and names alone, and by messages where they
are structs. Whatever else differs, a walk that such a type lets through to the end reads what the type of the layout
itself would have it read: records come from the cells, and the type decides only whether there are any.
-/

namespace SheetCompiler

namespace Row

variable {row : Source} {type nested : Message} {w : Walk} {name : String} {field : Field}

theorem numbersFit_of_bound (hfit : type.NumbersFit) (h : bound type w name = .ok field) :
    w.scopes.number < 2 ^ 32 ∧ field.kind.NumbersFit := by
  rw [bound] at h
  split at h
  · next found hfound =>
    cases h
    exact hfit.field (Option.filter_eq_some_iff.1 hfound).1
  · cases h

theorem numbersFit_of_boundMessage (hfit : type.NumbersFit) (h : boundMessage type w name = .ok nested) :
    w.scopes.number < 2 ^ 32 ∧ nested.NumbersFit := by
  obtain ⟨field, hbound, h⟩ := bind_eq_ok.1 h
  obtain ⟨hnumber, hkind⟩ := numbersFit_of_bound hfit hbound
  refine ⟨hnumber, ?_⟩
  split at h
  · next found hmessage =>
    cases h
    rw [Field.message?] at hmessage
    split at hmessage
    · next hfound =>
      cases hmessage
      rwa [hfound] at hkind
    · cases hmessage
  · cases h

open Node

/-! ### Fields that another type has too -/

section Fields

variable {node : Node} {nodes : List Node} {own : Message} {label : Label}
  (hprovides : own.Provides w.scopes.number (node :: nodes))
include hprovides

theorem bound_accepted {t : ValueType}
    (hnode : node.field? w.scopes.number = some ⟨w.scopes.number, name, label, .value t⟩)
    (hbound : bound type w name = .ok field) :
    (∃ found, bound own w name = .ok found)
      ∧ (type.NumbersFit → ∀ field, node.field? w.scopes.number = some field → field.NumbersFit) := by
  refine ⟨⟨_, bound_eq hprovides hnode⟩, ?_⟩
  intro hfit _ hfield
  cases hnode.symm.trans hfield
  exact ⟨(numbersFit_of_bound hfit hbound).1, trivial⟩

theorem boundMessage_accepted {members : Message}
    (hnode : node.field? w.scopes.number = some ⟨w.scopes.number, name, label, .message members⟩)
    (hbound : boundMessage type w name = .ok nested) (hmembers : nested.NumbersFit → members.NumbersFit) :
    boundMessage own w name = .ok members
      ∧ (type.NumbersFit → ∀ field, node.field? w.scopes.number = some field → field.NumbersFit) := by
  refine ⟨boundMessage_eq hprovides hnode rfl, ?_⟩
  intro hfit _ hfield
  cases hnode.symm.trans hfield
  obtain ⟨hnumber, hnested⟩ := numbersFit_of_boundMessage hfit hbound
  exact ⟨hnumber, hmembers hnested⟩

end Fields

theorem readCopy_accepted {own : Message} {members : List Node} {number : Nat}
    (hmembers : ∀ inner inner' : Walk, inner.scopes.number = 1 → readAll row nested inner members = .ok inner' →
      readAll row own inner members = .ok inner' ∧ (nested.NumbersFit → own.NumbersFit)) {s s' : Walk}
    (hs : readCopy row nested number members s = .ok s') :
    readCopy row own number members s = .ok s' ∧ (nested.NumbersFit → own.NumbersFit) := by
  obtain ⟨inner, hinner, hs⟩ := bind_eq_ok.1 hs
  obtain ⟨hwalk, hfields⟩ := hmembers (s.enter .empty) inner rfl hinner
  exact ⟨bind_eq_ok.2 ⟨inner, hwalk, hs⟩, hfields⟩

mutual

theorem read_accepted {h : Header} {row : Source} :
    ∀ {first : Nat} {node : Node} {nodes : List Node} {type own : Message} {w w' : Walk}, node.Stands h first →
      own.Provides w.scopes.number (node :: nodes) → read row type w node = .ok w' →
      read row own w node = .ok w'
        ∧ (type.NumbersFit → ∀ field, node.field? w.scopes.number = some field → field.NumbersFit)
  | _, .skip _, _, _, _, _, _, _, _, hread => ⟨hread, fun _ => nofun⟩
  | _, .value column optional, _, type, own, w, w', _, hprovides, hread => by
      rw [read] at hread ⊢
      obtain ⟨field, hbound, hread⟩ := bind_eq_ok.1 hread
      obtain ⟨⟨found, hown⟩, hfields⟩ := bound_accepted hprovides rfl hbound
      exact ⟨bind_eq_ok.2 ⟨found, hown, hread⟩, hfields⟩
  | _, .inline column, _, type, own, w, w', _, hprovides, hread => by
      rw [read] at hread ⊢
      obtain ⟨field, hbound, hread⟩ := bind_eq_ok.1 hread
      obtain ⟨⟨found, hown⟩, hfields⟩ := bound_accepted hprovides rfl hbound
      exact ⟨bind_eq_ok.2 ⟨found, hown, hread⟩, hfields⟩
  | _, .values count max column optional, _, type, own, w, w', _, hprovides, hread => by
      rw [read] at hread ⊢
      obtain ⟨copies, hcopies, hread⟩ := bind_eq_ok.1 hread
      obtain ⟨field, hbound, hread⟩ := bind_eq_ok.1 hread
      obtain ⟨⟨found, hown⟩, hfields⟩ := bound_accepted (w := w.skip 1) hprovides rfl hbound
      exact ⟨bind_eq_ok.2 ⟨copies, hcopies, bind_eq_ok.2 ⟨found, hown, hread⟩⟩, hfields⟩
  | _, .struct head members, _, type, own, w, w', ⟨_, _, htile⟩, hprovides, hread => by
      rw [read] at hread ⊢
      obtain ⟨nested, hbound, hread⟩ := bind_eq_ok.1 hread
      obtain ⟨inner, hinner, hread⟩ := bind_eq_ok.1 hread
      obtain ⟨hmembers, hfit⟩ :=
        readAll_accepted htile (Message.Provides.of_fields head.typeName members) hinner
      obtain ⟨hown, hfields⟩ := boundMessage_accepted hprovides rfl hbound hfit
      exact ⟨bind_eq_ok.2 ⟨_, hown, bind_eq_ok.2 ⟨inner, hmembers, hread⟩⟩, hfields⟩
  | _, .structs count max head members, _, type, own, w, w', ⟨_, _, _, _, _, htile, _⟩, hprovides, hread => by
      rw [read_structs] at hread ⊢
      obtain ⟨copies, hcopies, hread⟩ := bind_eq_ok.1 hread
      obtain ⟨nested, hbound, hread⟩ := bind_eq_ok.1 hread
      by_cases hmissing : copies = 0 ∧ head.required = true
      · rw [if_pos hmissing] at hread
        cases hread
      rw [if_neg hmissing] at hread
      obtain ⟨behind, hwalk, hread⟩ := bind_eq_ok.1 hread
      have hcopy (s s' : Walk) (hs : readCopy row nested w.scopes.number members s = .ok s') :
          readCopy row ⟨head.typeName, fields 1 members⟩ w.scopes.number members s = .ok s'
            ∧ (nested.NumbersFit → Message.NumbersFit ⟨head.typeName, fields 1 members⟩) :=
        readCopy_accepted (fun inner _ hnumber hinner => by
          have hown := Message.Provides.of_fields head.typeName members
          rw [← hnumber] at hown ⊢
          exact readAll_accepted htile hown hinner) hs
      -- The first copy is walked even if none is used.
      obtain ⟨next, hnext⟩ := exists_of_iterateM (Nat.le_max_right copies 1) hwalk
      obtain ⟨hown, hfields⟩ := boundMessage_accepted (w := w.skip 1) hprovides rfl hbound (hcopy _ next hnext).2
      refine ⟨bind_eq_ok.2 ⟨copies, hcopies, bind_eq_ok.2 ⟨_, hown, ?_⟩⟩, hfields⟩
      rw [if_neg hmissing]
      exact bind_eq_ok.2 ⟨behind, iterateM_imp (fun s s' hs => (hcopy s s' hs).1) _ hwalk, hread⟩

/-- A walk that a type lets through is that of the layout's own type, the numbers of which are as small as those of
the other. -/
theorem readAll_accepted {h : Header} {row : Source} :
    ∀ {first last : Nat} {nodes : List Node} {type own : Message} {w w' : Walk}, Tile h first last nodes →
      own.Provides w.scopes.number nodes → readAll row type w nodes = .ok w' →
      readAll row own w nodes = .ok w' ∧ (type.NumbersFit → Field.NumbersFitAll (fields w.scopes.number nodes))
  | _, _, [], _, _, _, _, _, _, hread => ⟨hread, fun _ => trivial⟩
  | _, _, node :: nodes, type, own, w, w', ⟨hnode, htile⟩, hprovides, hread => by
      rw [readAll] at hread ⊢
      obtain ⟨next, hnext, hread⟩ := bind_eq_ok.1 hread
      have hpasses : Ends (fun w' => w.Passes w' node.span node.fieldCount)
          (Fault type w.scopes.number (node :: nodes)) (read row type w node) := ends_read hnode
      rw [hnext] at hpasses
      obtain ⟨hown, hfield⟩ := read_accepted hnode hprovides hnext
      have hprovides := hprovides.tail
      rw [← hpasses.of_ok.number] at hprovides
      obtain ⟨hrest, hfields⟩ := readAll_accepted htile hprovides hread
      refine ⟨bind_eq_ok.2 ⟨next, hown, hrest⟩, ?_⟩
      intro hfit
      rw [fields, Field.numbersFitAll_iff]
      intro field hmem
      rcases List.mem_append.1 hmem with hmem | hmem
      · exact hfield hfit field (Option.mem_toList.1 hmem)
      · rw [hpasses.of_ok.number] at hfields
        exact Field.numbersFitAll_iff.1 (hfields hfit) field hmem

end

section Rows

variable {h : Header} {l : Layout} (hlayout : Layout.ofHeader h = .ok l)
include hlayout

/-- A row that is read with any type has the record that the type of the layout gives it. -/
theorem toRecord_accepted {type : Message} {row : Source} {r : Record} (hr : toRecord row l type = .ok r)
    (record : String) :
    toRecord row l (l.type record) = .ok r ∧ (type.NumbersFit → (l.type record).NumbersFit) := by
  rw [toRecord] at hr ⊢
  obtain ⟨w, hwalk, hr⟩ := bind_eq_ok.1 hr
  obtain ⟨hown, hfields⟩ := readAll_accepted (Layout.tile_of_ofHeader hlayout).2
    (Message.Provides.of_fields record l.nodes) hwalk
  exact ⟨bind_eq_ok.2 ⟨w, hown, hr⟩, hfields⟩

/-- A row that is read with any type has the record that is read by position. -/
theorem reference_of_toRecord {type : Message} {row : Source} {r : Record} (hr : toRecord row l type = .ok r) :
    reference? row l = some r := by
  rw [← toOption_toRecord hlayout row "record", toOption_eq_some]
  exact (toRecord_accepted hlayout hr "record").1

end Rows

end Row

end SheetCompiler
