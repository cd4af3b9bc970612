import Choreography.Proofs.ExpressionForms
import Choreography.Proofs.Places
import Choreography.Proofs.Tables

/-! # Round trips

A program that is written as a text is read back from it, by induction on its statements and what
is nested in them, and so is a frame. -/
namespace Choreography

/-! ### Parts of statements -/

theorem Direction.ofName?_name (d : Direction) : ofName? d.name = some d := by
  cases d <;> decide

namespace Motion

def arguments (m : Motion) : List Expr := [m.distance, m.step, m.interval, m.gap, m.pauseAtEnds]

theorem writable_toFields {m : Motion} (h : ∀ e ∈ m.arguments, e.Preserved) :
    ∀ field ∈ m.toFields, field.2.Writable := by
  simp only [arguments, List.forall_mem_cons] at h
  obtain ⟨hdistance, hstep, hinterval, hgap, hpause, -⟩ := h
  simp only [toFields, List.forall_mem_cons]
  exact ⟨.string _, Expr.writable_toDocument hdistance, Expr.writable_toDocument hstep,
    Expr.writable_toDocument hinterval, Expr.writable_toDocument hgap,
    Expr.writable_toDocument hpause, List.forall_mem_nil _⟩

theorem ofDocument_toFields {m : Motion} (h : ∀ e ∈ m.arguments, e.Preserved)
    (isNothing : Document → Bool) : ofDocument isNothing (.object m.toFields) = some m := by
  simp only [arguments, List.forall_mem_cons] at h
  obtain ⟨hdistance, hstep, hinterval, hgap, hpause, -⟩ := h
  have hdirection : Direction.ofDocument isNothing m.direction.toDocument = some m.direction :=
    Direction.ofName?_name m.direction
  simp [ofDocument, ofRecord, toFields, fieldNames, hdirection,
    Expr.ofDocument_toDocument hdistance, Expr.ofDocument_toDocument hstep,
    Expr.ofDocument_toDocument hinterval, Expr.ofDocument_toDocument hgap,
    Expr.ofDocument_toDocument hpause]

end Motion

namespace PointExpr

theorem writable_toDocument {p : PointExpr} (hx : p.x.Preserved) (hy : p.y.Preserved) :
    p.toDocument.Writable :=
  .object (Document.writable_pair (Expr.writable_toDocument hx) (Expr.writable_toDocument hy))

theorem ofDocument_toDocument {p : PointExpr} (hx : p.x.Preserved) (hy : p.y.Preserved) :
    ofDocument p.toDocument = some p := by
  simp [ofDocument, toDocument, Expr.ofDocument_toDocument hx, Expr.ofDocument_toDocument hy]

end PointExpr

namespace LoopCount

def arguments : LoopCount → List Expr
  | .infinite => []
  | .times e => [e]

theorem writable_toDocument {count : LoopCount} (h : ∀ e ∈ count.arguments, e.Preserved) :
    count.toDocument.Writable := by
  cases count with
  | infinite => exact .string _
  | times e =>
    have he := Expr.writable_toDocument (h e List.mem_cons_self)
    exact .object (List.forall_mem_singleton.mpr he)

theorem ofDocument_toDocument {count : LoopCount} (h : ∀ e ∈ count.arguments, e.Preserved)
    (isNothing : Document → Bool) : ofDocument isNothing count.toDocument = some count := by
  cases count with
  | infinite => rfl
  | times e =>
    simp [ofDocument, toDocument, Expr.ofDocument_toDocument (h e List.mem_cons_self)]

end LoopCount

/-! ### Statements -/

namespace Statement
open Document

def arguments : Statement → List Expr
  | .move m => m.arguments
  | .moveTo start finish step interval =>
      [start.x, start.y, finish.x, finish.y, step, interval]
  | .pause duration => [duration]
  | .loop count _ => count.arguments
  | .conditional branches _ => branches.map Branch.condition
  | .waitFor _ maxTicks => [maxTicks]
  | .scrollClip m => m.arguments
  | .scrollLoop m => m.arguments
  | .scrollBounce m => m.arguments
  | .slide m => m.arguments
  | .period ticks => [ticks]
  | _ => []

def Preserved (places : List Place) : Prop :=
  ∀ place ∈ places, ∀ e ∈ place.statement.arguments, e.Preserved

theorem Preserved.arguments {site : Site} {depth : Nat} {s : Statement}
    (h : Preserved (s.places site depth)) : ∀ e ∈ s.arguments, e.Preserved :=
  h _ (mem_places_self site depth s)

/-- A statement can be written if its parts can. -/
theorem writable_tagged (kind : String) {fields : List (String × Document)}
    (h : ∀ field ∈ fields, field.2.Writable) :
    (Document.object (("type", .string kind) :: fields)).Writable :=
  .object (List.forall_mem_cons.mpr ⟨.string kind, h⟩)

mutual

theorem writable_toDocument {site : Site} {depth : Nat} (s : Statement)
    (h : Preserved (s.places site depth)) : s.toDocument.Writable := by
  have harguments := h.arguments
  unfold toDocument
  refine writable_tagged s.kind ?_
  cases s with
  | move m | scrollClip m | scrollLoop m | scrollBounce m | slide m =>
    exact m.writable_toFields harguments
  | moveTo start finish step interval =>
    simp only [arguments, List.forall_mem_cons] at harguments
    obtain ⟨hsx, hsy, hfx, hfy, hstep, hinterval, -⟩ := harguments
    simp only [List.forall_mem_cons]
    exact ⟨PointExpr.writable_toDocument hsx hsy, PointExpr.writable_toDocument hfx hfy,
      Expr.writable_toDocument hstep, Expr.writable_toDocument hinterval, List.forall_mem_nil _⟩
  | pause e | period e =>
    exact List.forall_mem_singleton.mpr (Expr.writable_toDocument (harguments _ List.mem_cons_self))
  | waitFor event maxTicks =>
    exact writable_pair (.string event)
      (Expr.writable_toDocument (harguments _ List.mem_cons_self))
  | sync name | call name => exact List.forall_mem_singleton.mpr (.string name)
  | loop count body =>
    have hbody : Preserved (blockPlaces site (depth + 1) 0 body) := (List.forall_mem_cons.mp h).2
    exact writable_pair (count.writable_toDocument harguments)
      (.array (writable_blockToDocuments body hbody))
  | conditional branches otherwise =>
    obtain ⟨hbranches, hotherwise⟩ := List.forall_mem_append.mp (List.forall_mem_cons.mp h).2
    exact writable_pair (.array (writable_branchesToDocuments branches harguments hbranches))
      (.array (writable_blockToDocuments otherwise hotherwise))
  | define name body | segment name body =>
    have hbody := (List.forall_mem_cons.mp h).2
    exact writable_pair (.string name) (.array (writable_blockToDocuments body hbody))
  | resetPosition | breakLoop | continueLoop => exact List.forall_mem_nil _

theorem writable_blockToDocuments {site : Site} {depth k : Nat} (block : List Statement)
    (h : Preserved (blockPlaces site depth k block)) :
    ∀ d ∈ blockToDocuments block, d.Writable := by
  cases block with
  | nil => exact List.forall_mem_nil _
  | cons s rest =>
    obtain ⟨hs, hrest⟩ := List.forall_mem_append.mp h
    rw [blockToDocuments]
    exact List.forall_mem_cons.mpr ⟨writable_toDocument s hs, writable_blockToDocuments rest hrest⟩

theorem writable_branchesToDocuments {site : Site} {depth j : Nat} (branches : List Branch)
    (hconditions : ∀ e ∈ branches.map Branch.condition, e.Preserved)
    (h : Preserved (branchPlaces site depth j branches)) :
    ∀ d ∈ branchesToDocuments branches, d.Writable := by
  cases branches with
  | nil => exact List.forall_mem_nil _
  | cons b rest =>
    obtain ⟨condition, body⟩ := b
    obtain ⟨hcondition, hmore⟩ := List.forall_mem_cons.mp hconditions
    obtain ⟨hbody, hrest⟩ := List.forall_mem_append.mp h
    rw [branchesToDocuments]
    refine List.forall_mem_cons.mpr ⟨?_, writable_branchesToDocuments rest hmore hrest⟩
    exact .object (writable_pair (Expr.writable_toDocument hcondition)
      (.array (writable_blockToDocuments body hbody)))

end

def blockIn (n : Nat) (d : Document) : Option Block := d.array?.bind (·.mapM (ofDocumentIn true n))

def branchesIn (n : Nat) (d : Document) : Option (List Branch) :=
  d.array?.bind (·.mapM (branch? (blockIn n)))

/-- A statement is read by its type, whatever part of a program it is. -/
theorem ofDocumentIn_tagged (inner : Bool) (n : Nat) (kind : String)
    {fields : List (String × Document)} (h : "type" ∉ fields.map Prod.fst) :
    ofDocumentIn inner (n + 1) (.object (("type", .string kind) :: fields)) =
      ofParts (blockIn n) (branchesIn n) kind (.object fields) := by
  have hfields : fields.filter (fun f => f.1 != "type") = fields := by
    refine List.filter_eq_self.mpr fun f hf => ?_
    rw [bne_iff_ne]
    rintro htype
    exact h (htype ▸ List.mem_map_of_mem hf)
  have htagged : (Document.object (("type", .string kind) :: fields)).tagged? =
      some (.string kind, .object fields) := by
    rw [tagged?, fieldsNamed_cons_self "type" _ h]
    simp [hfields]
  rw [ofDocumentIn, htagged]
  rfl

mutual

theorem ofDocumentIn_toDocument {site : Site} {depth : Nat} (s : Statement)
    (h : Preserved (s.places site depth)) (inner : Bool) {n : Nat}
    (hn : s.toDocument.depth ≤ n) : ofDocumentIn inner n s.toDocument = some s := by
  have harguments := h.arguments
  have hpositive : 0 < s.toDocument.depth := by
    unfold toDocument
    exact Nat.succ_pos _
  -- What stands in a statement nests less deep by one, and the list around it by another one.
  obtain ⟨n, rfl⟩ := Nat.exists_eq_add_one_of_ne_zero (by omega : n ≠ 0)
  cases s with
  | move m | scrollClip m | scrollLoop m | scrollBounce m | slide m =>
    rw [toDocument, ofDocumentIn_tagged _ _ _ (by simp [Motion.toFields])]
    simp [ofParts, kind, motion?, m.ofDocument_toFields harguments]
  | moveTo start finish step interval =>
    simp only [arguments, List.forall_mem_cons] at harguments
    obtain ⟨hsx, hsy, hfx, hfy, hstep, hinterval, -⟩ := harguments
    rw [toDocument, ofDocumentIn_tagged _ _ _ (by simp)]
    simp [ofParts, kind, PointExpr.ofDocument_toDocument hsx hsy,
      PointExpr.ofDocument_toDocument hfx hfy, Expr.ofDocument_toDocument hstep,
      Expr.ofDocument_toDocument hinterval]
  | pause e | period e =>
    rw [toDocument, ofDocumentIn_tagged _ _ _ (by simp)]
    simp [ofParts, kind, Expr.ofDocument_toDocument (harguments _ List.mem_cons_self)]
  | waitFor event maxTicks =>
    rw [toDocument, ofDocumentIn_tagged _ _ _ (by simp)]
    simp [ofParts, kind, string?, Expr.ofDocument_toDocument (harguments _ List.mem_cons_self)]
  | sync name | call name =>
    rw [toDocument, ofDocumentIn_tagged _ _ _ (by simp)]
    simp [ofParts, kind, string?]
  | loop count body =>
    have hbody : Preserved (blockPlaces site (depth + 1) 0 body) := (List.forall_mem_cons.mp h).2
    simp only [toDocument, Document.depth, depthOfFields] at hn
    have hblock := blockIn_blockToDocuments body hbody (n := n) (by omega)
    rw [toDocument, ofDocumentIn_tagged _ _ _ (by simp)]
    simp [ofParts, kind, count.ofDocument_toDocument harguments, hblock]
  | conditional branches otherwise =>
    obtain ⟨hbranches, hotherwise⟩ := List.forall_mem_append.mp (List.forall_mem_cons.mp h).2
    simp only [toDocument, Document.depth, depthOfFields] at hn
    have hread := branchesIn_branchesToDocuments branches harguments hbranches (n := n) (by omega)
    have hblock := blockIn_blockToDocuments otherwise hotherwise (n := n) (by omega)
    rw [toDocument, ofDocumentIn_tagged _ _ _ (by simp)]
    simp [ofParts, kind, hread, hblock]
  | define name body | segment name body =>
    have hbody := (List.forall_mem_cons.mp h).2
    simp only [toDocument, Document.depth, depthOfFields] at hn
    have hblock := blockIn_blockToDocuments body hbody (n := n) (by omega)
    rw [toDocument, ofDocumentIn_tagged _ _ _ (by simp)]
    simp [ofParts, kind, string?, hblock]
  | resetPosition | breakLoop | continueLoop => rfl

theorem blockIn_blockToDocuments {site : Site} {depth k : Nat} (block : List Statement)
    (h : Preserved (blockPlaces site depth k block)) {n : Nat}
    (hn : depthEach (blockToDocuments block) ≤ n) :
    blockIn n (.array (blockToDocuments block)) = some block := by
  cases block with
  | nil => rfl
  | cons s rest =>
    obtain ⟨hs, hrest⟩ := List.forall_mem_append.mp h
    rw [blockToDocuments, depthEach] at hn
    have hfirst := ofDocumentIn_toDocument s hs true (n := n) (by omega)
    have hmore := blockIn_blockToDocuments rest hrest (n := n) (by omega)
    simp only [blockIn, array?, Option.bind_some] at hmore ⊢
    rw [blockToDocuments, List.mapM_cons, hfirst, hmore]
    rfl

theorem branchesIn_branchesToDocuments {site : Site} {depth j : Nat} (branches : List Branch)
    (hconditions : ∀ e ∈ branches.map Branch.condition, e.Preserved)
    (h : Preserved (branchPlaces site depth j branches)) {n : Nat}
    (hn : depthEach (branchesToDocuments branches) ≤ n) :
    branchesIn n (.array (branchesToDocuments branches)) = some branches := by
  cases branches with
  | nil => rfl
  | cons b rest =>
    obtain ⟨condition, body⟩ := b
    obtain ⟨hfirst, hothers⟩ := List.forall_mem_cons.mp hconditions
    have hcondition : condition.Preserved := hfirst
    obtain ⟨hbody, hrest⟩ := List.forall_mem_append.mp h
    simp only [branchesToDocuments, depthEach, Document.depth, depthOfFields] at hn
    have hblock := blockIn_blockToDocuments body hbody (n := n) (by omega)
    have hmore := branchesIn_branchesToDocuments rest hothers hrest (n := n) (by omega)
    have hbranch : branch? (blockIn n) (.object [("condition", condition.toDocument),
        ("body", .array (blockToDocuments body))]) = some (.mk condition body) := by
      simp [branch?, Expr.ofDocument_toDocument hcondition, hblock]
    simp only [branchesIn, array?, Option.bind_some] at hmore ⊢
    rw [branchesToDocuments, List.mapM_cons, hbranch, hmore]
    rfl

end

/-- A block of a program reads back statement by statement. -/
theorem blockOfDocument_blockToDocuments {site : Site} {depth k : Nat} {block : Block}
    (h : Preserved (blockPlaces site depth k block)) :
    blockOfDocument (.array (blockToDocuments block)) = some block := by
  induction block generalizing k with
  | nil => rfl
  | cons s rest ih =>
    obtain ⟨hs, hrest⟩ := List.forall_mem_append.mp h
    have hmore := ih hrest
    have hfirst : ofDocument s.toDocument = some s := by
      rw [ofDocument, if_pos (writable_toDocument s hs).isReadable]
      exact ofDocumentIn_toDocument s hs false (Nat.le_refl _)
    simp only [blockOfDocument, array?, Option.bind_some] at hmore ⊢
    rw [blockToDocuments, List.mapM_cons, hfirst, hmore]
    rfl

end Statement

/-! ### Programs -/

theorem Table.ofDocument_toDocument {f : β → Document} {read : Document → Option β} {t : Table β}
    (h : ∀ e ∈ t.entries, read (f e.2) = some e.2) : ofDocument read (t.toDocument f) = some t := by
  have hread : (t.entries.map fun e => (e.1, f e.2)).mapM
      (fun e => (read e.2).map fun v => (e.1, v)) = some t.entries := by
    refine Document.mapM_map_of_forall fun e he => ?_
    rw [h e he, Option.map_some]
  rw [toDocument, ofDocument, hread, Option.map_some, ofList_entries]

theorem Value.tableOfDocument_toDocument {constants : Table Value}
    (h : ∀ e ∈ constants.entries, ∀ x ∈ e.2.floats, x.Preserved) :
    tableOfDocument (constants.toDocument toDocument) = some constants :=
  Table.ofDocument_toDocument fun e he => e.2.ofDocument_toDocument (h e he)

theorem Value.writable_table {constants : Table Value}
    (h : ∀ e ∈ constants.entries, ∀ x ∈ e.2.floats, x.Preserved) :
    (constants.toDocument toDocument).Writable := by
  refine .object fun field hfield => ?_
  obtain ⟨e, he, rfl⟩ := List.mem_map.mp hfield
  exact e.2.writable_toDocument (h e he)

namespace Program
open Document

def floats (p : Program) : List Binary64 :=
  p.places.flatMap (fun place => place.statement.arguments.flatMap Expr.floats) ++
    p.constants.entries.flatMap fun e => e.2.floats

def Preserved (p : Program) : Prop := ∀ x ∈ p.floats, x.Preserved

theorem Preserved.statements {p : Program} (h : p.Preserved) : Statement.Preserved p.places := by
  intro place hplace e he x hx
  refine h x (List.mem_append_left _ ?_)
  exact List.mem_flatMap_of_mem hplace (List.mem_flatMap_of_mem he hx)

theorem Preserved.constants {p : Program} (h : p.Preserved) :
    ∀ e ∈ p.constants.entries, ∀ x ∈ e.2.floats, x.Preserved := fun _ he x hx =>
  h x (List.mem_append_right _ (List.mem_flatMap_of_mem he hx))

theorem writable_toDocument {p : Program} (h : p.Preserved) : p.toDocument.Writable :=
  .object (writable_pair
    (.array (Statement.writable_blockToDocuments p.statements h.statements))
    (Value.writable_table h.constants))

theorem ofDocument_toDocument {p : Program} (h : p.Preserved) (surplus : Bool) :
    ofDocument surplus p.toDocument = some p := by
  simp [ofDocument, toDocument, Statement.blockOfDocument_blockToDocuments h.statements,
    Value.tableOfDocument_toDocument h.constants]

end Program

/-! ### Frames -/

namespace Frame
open Document

def markField (name : String) (set : Bool) : List (String × Document) :=
  if set then [(name, .bool true)] else []

def segmentField (segment : Option String) : List (String × Document) :=
  (segment.map fun s => ("segment_name", .string s)).toList

/-- What is written of a frame, in the order in which its fields are known. -/
def fields (f : Frame) : List (String × Document) :=
  ("x", .ofInt f.x) :: ("y", .ofInt f.y) ::
    (markField "pause" f.pause ++ (markField "pause_end" f.pauseEnd ++
      (markField "terminal" f.terminal ++ (markField "reset" f.reset ++
        segmentField f.segment))))

theorem toDocument_eq (f : Frame) : f.toDocument = .object f.fields := by
  simp [toDocument, fields, markField, segmentField]

variable {name other : String} {set : Bool} {rest : Record} {read : Document → Option α}
  {default : α}

/-- A mark that a frame does not have reads as the default. -/
@[simp] theorem optional_markField_self :
    Record.optional (markField name set ++ rest) name bool? false =
      if set then some true else rest.optional name bool? false := by
  cases set with
  | false => rfl
  | true => exact Record.optional_cons_self name _ rest bool? false

@[simp] theorem optional_markField_of_ne (h : other ≠ name) :
    Record.optional (markField other set ++ rest) name read default =
      rest.optional name read default := by
  cases set with
  | false => rfl
  | true => exact Record.optional_cons_of_ne h _ rest read default

@[simp] theorem optional_segmentField_self (segment : Option String) :
    Record.optional (segmentField segment) "segment_name" optionalName none = some segment := by
  cases segment <;> rfl

@[simp] theorem optional_segmentField_of_ne (segment : Option String) (h : name ≠ "segment_name") :
    Record.optional (segmentField segment) name read default = some default := by
  cases segment with
  | none => rfl
  | some s => exact Record.optional_cons_of_ne h.symm _ [] read default

theorem sublist_markField (name : String) (set : Bool) {names : List String}
    (h : (rest.map Prod.fst).Sublist names) :
    ((markField name set ++ rest).map Prod.fst).Sublist (name :: names) := by
  cases set with
  | false => exact h.cons name
  | true => exact h.cons_cons name

theorem sublist_fields (f : Frame) : (f.fields.map Prod.fst).Sublist
    ["x", "y", "pause", "pause_end", "terminal", "reset", "segment_name"] := by
  have hsegment : ((segmentField f.segment).map Prod.fst).Sublist ["segment_name"] := by
    cases f.segment with
    | none => exact List.nil_sublist _
    | some s => exact List.Sublist.refl _
  have hmarks := sublist_markField "pause" f.pause <|
    sublist_markField "pause_end" f.pauseEnd <|
      sublist_markField "terminal" f.terminal <|
        sublist_markField "reset" f.reset hsegment
  exact (hmarks.cons_cons "y").cons_cons "x"

theorem ofDocument_toDocument {f : Frame} (hx : isSigned 32 f.x = true)
    (hy : isSigned 32 f.y = true) (surplus : Bool) : ofDocument surplus f.toDocument = some f := by
  -- Behind a mark that is missing, its name does not come again.
  have hset : ∀ set : Bool, (if set then some true else some false) = some set := by decide
  rw [ofDocument, toDocument_eq, record?_of_sublist (by decide) f.sublist_fields]
  simp [fields, signed?_ofInt hx, signed?_ofInt hy, hset]

/-- The fields of a frame are scalars. -/
theorem scalar_fields {f : Frame} (hx : isSigned 32 f.x = true) (hy : isSigned 32 f.y = true) :
    ∀ field ∈ f.fields, field.2.Writable ∧ field.2.depth = 0 := by
  have hmark : ∀ (name : String) (set : Bool),
      ∀ field ∈ markField name set, field.2.Writable ∧ field.2.depth = 0 := by
    intro name set
    cases set with
    | false => exact List.forall_mem_nil _
    | true => exact List.forall_mem_singleton.mpr ⟨writable_bool true, rfl⟩
  have hsegment : ∀ field ∈ segmentField f.segment, field.2.Writable ∧ field.2.depth = 0 := by
    cases f.segment with
    | none => exact List.forall_mem_nil _
    | some s => exact List.forall_mem_singleton.mpr ⟨.string s, rfl⟩
  simp only [fields, List.forall_mem_cons, List.forall_mem_append]
  exact ⟨⟨writable_narrow hx, depth_ofInt _⟩, ⟨writable_narrow hy, depth_ofInt _⟩,
    hmark _ _, hmark _ _, hmark _ _, hmark _ _, hsegment⟩

theorem writable_toDocument {f : Frame} (hx : isSigned 32 f.x = true)
    (hy : isSigned 32 f.y = true) : f.toDocument.Writable := by
  rw [toDocument_eq]
  exact .object fun field hfield => (scalar_fields hx hy field hfield).1

theorem depth_toDocument {f : Frame} (hx : isSigned 32 f.x = true)
    (hy : isSigned 32 f.y = true) : f.toDocument.depth = 1 := by
  have hflat := depthOfFields_eq_zero fun field hfield => (scalar_fields hx hy field hfield).2
  rw [toDocument_eq, depth, hflat]

end Frame

/-- Programs and frames read back from their texts: programs whose numbers do and whose documents
nest no deeper than texts may, and frames at coordinates of thirty-two bits. -/
theorem json_round_trip :
    (∀ p : Program, p.Preserved → p.toDocument.depth ≤ Json.depthLimit →
      (Json.parse? (Json.render p.toDocument)).bind (Program.ofDocument false) = some p) ∧
    (∀ f : Frame, isSigned 32 f.x = true → isSigned 32 f.y = true →
      (Json.parse? (Json.render f.toDocument)).bind (Frame.ofDocument false) = some f) := by
  constructor
  · intro p hp hdepth
    rw [Json.parse_render (Program.writable_toDocument hp) hdepth]
    exact Program.ofDocument_toDocument hp false
  · intro f hx hy
    have hdepth : f.toDocument.depth ≤ Json.depthLimit := by
      rw [Frame.depth_toDocument hx hy]
      decide
    rw [Json.parse_render (Frame.writable_toDocument hx hy) hdepth]
    exact Frame.ofDocument_toDocument hx hy false

def half : Binary64 := ⟨0x3fe0000000000000⟩

theorem half_preserved : half.Preserved := ⟨by decide, rfl⟩

def medley : Program where
  statements := [
    .repeated (.int (-3)) [
      .conditional [.mk (.negation (.variable "pace")) [.pause (.literal (.float half))]]
        [.breakLoop]],
    .segment "rest" [
      .move (.along .left (.binary (.arithmetic .add) .one (.literal (.float half))))]]
  constants := (∅ : Table Value).insert "pace" (.float half)

theorem medley_preserved : medley.Preserved := by
  have hhalf : ∀ x ∈ medley.floats, x = half := by decide
  intro x hx
  rw [hhalf x hx]
  exact half_preserved

def bow : Frame := ⟨-7, 12, true, false, true, false, some "rest"⟩

theorem medley_and_bow_round_trip :
    (Json.parse? (Json.render medley.toDocument)).bind (Program.ofDocument false) = some medley ∧
      (Json.parse? (Json.render bow.toDocument)).bind (Frame.ofDocument false) = some bow :=
  ⟨json_round_trip.1 medley medley_preserved (by decide),
    json_round_trip.2 bow (by decide) (by decide)⟩

end Choreography
