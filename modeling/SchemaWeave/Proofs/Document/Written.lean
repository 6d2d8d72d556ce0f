import SchemaWeave.Proofs.Document.Faults
import SchemaWeave.Proofs.Keyed.Extension

/-!
# Definitions as they were written

What is read from a definition without faults is written again as that definition, and what an
`extend` form has made of it as the definition with the parts of the form after its own. Only the
interfaces of a definition are different: one that is repeated there is no fault and is written
once.
-/

namespace SchemaWeave

open Sdl

/-! ## Bodies -/

namespace Sdl.Body

/-- The interfaces of a body, as they are written. -/
def interfaces : Body → List Name
  | object interfaces _ => interfaces
  | interface interfaces _ => interfaces
  | _ => []

/-- The body with the parts of another one of its kind after its own. -/
def append : Body → Body → Body
  | object is fs, object js gs => object (is ++ js) (fs ++ gs)
  | interface is fs, interface js gs => interface (is ++ js) (fs ++ gs)
  | union ms, union ns => union (ms ++ ns)
  | enum vs, enum ws => enum (vs ++ ws)
  | inputObject fs, inputObject gs => inputObject (fs ++ gs)
  | b, _ => b

/-- The body with the first mention of every interface. -/
def interfacesOnce : Body → Body
  | object interfaces fields => object (Distinct.ofList interfaces).toList fields
  | interface interfaces fields => interface (Distinct.ofList interfaces).toList fields
  | b => b

theorem interfacesOnce_eq_self {b : Body} (h : b.interfaces.Nodup) : b.interfacesOnce = b := by
  cases b with
  | object interfaces fields => exact congrArg (object · fields) (Distinct.toList_ofList_of_nodup h)
  | interface interfaces fields =>
    exact congrArg (interface · fields) (Distinct.toList_ofList_of_nodup h)
  | scalar => rfl
  | union _ => rfl
  | enum _ => rfl
  | inputObject _ => rfl

theorem interfaces_interfacesOnce_nodup (b : Body) : b.interfacesOnce.interfaces.Nodup := by
  cases b with
  | object interfaces fields => exact (Distinct.ofList interfaces).nodup
  | interface interfaces fields => exact (Distinct.ofList interfaces).nodup
  | scalar => exact List.nodup_nil
  | union _ => exact List.nodup_nil
  | enum _ => exact List.nodup_nil
  | inputObject _ => exact List.nodup_nil

end Sdl.Body

/-- A definition reads its interfaces once, also those of the front of its list. -/
theorem bodyOfNode_interfacesOnce_append (type : Name) (b c : Body) :
    bodyOfNode type (b.interfacesOnce.append c) = bodyOfNode type (b.append c) := by
  cases b <;> cases c <;>
    simp only [Body.interfacesOnce, Body.append, bodyOfNode, Distinct.ofList_toList_append,
      Distinct.ofList_toList]

theorem bodyOfNode_interfacesOnce (type : Name) (b : Body) :
    bodyOfNode type b.interfacesOnce = bodyOfNode type b := by
  cases b <;> simp only [Body.interfacesOnce, bodyOfNode, Distinct.ofList_toList]

/-! ## What is read is what was written -/

theorem values_argumentTable {owner : ArgumentOwner} {args : List InputValue}
    (h : (argumentTable owner args).2 = []) : (argumentTable owner args).1.values = args :=
  (values_addEntries h).trans (List.map_id args)

theorem toNode_fieldOfNode {type : Name} {node : FieldNode} (h : (fieldOfNode type node).2 = []) :
    (fieldOfNode type node).1.toNode = node := by
  show (⟨_, _, (argumentTable _ node.arguments).1.values, _, _⟩ : FieldNode) = node
  rw [values_argumentTable h]
  rfl

theorem toNode_fieldTable {type : Name} {nodes : List FieldNode}
    (h : (fieldTable type nodes).2 = []) :
    (fieldTable type nodes).1.values.map Field.toNode = nodes := by
  have hfields := (addEntries_faults_eq_nil_iff.mp h).2
  rw [fieldTable, values_addEntries h, List.map_append, List.map_map]
  show nodes.map _ = nodes
  exact (List.map_congr_left fun f hf => toNode_fieldOfNode (hfields f hf)).trans (List.map_id _)

theorem values_inputFieldTable {type : Name} {fields : List InputValue}
    (h : (inputFieldTable type fields).2 = []) : (inputFieldTable type fields).1.values = fields :=
  (values_addEntries h).trans (List.map_id fields)

theorem values_enumValueTable {type : Name} {values : List EnumValue}
    (h : (enumValueTable type values).2 = []) : (enumValueTable type values).1.values = values :=
  (values_addEntries h).trans (List.map_id values)

theorem toList_addElements {fault : Name → DocumentFault} {s : Distinct Name} {l : List Name}
    (h : (addElements fault s l).2 = []) : (addElements fault s l).1.toList = s.toList ++ l := by
  have hnodup := addElements_faults_eq_nil_iff.mp h
  rw [addElements_fst]
  exact Distinct.toList_append_of_nodup (List.nodup_append.mp hnodup).2.1
    fun n hn hs => List.disjoint_of_nodup_append hnodup hs hn

/-- A body that is read without faults is written as it was, with every interface once. -/
theorem toBody_bodyOfNode {type : Name} {b : Body} (h : (bodyOfNode type b).2 = []) :
    (bodyOfNode type b).1.toBody = b.interfacesOnce := by
  cases b with
  | scalar => rfl
  | object interfaces nodes => exact congrArg (Body.object _) (toNode_fieldTable h)
  | interface interfaces nodes => exact congrArg (Body.interface _) (toNode_fieldTable h)
  | union members => exact congrArg Body.union (toList_addElements h)
  | enum values => exact congrArg Body.enum (values_enumValueTable h)
  | inputObject fields => exact congrArg Body.inputObject (values_inputFieldTable h)

theorem toNode_directiveOfNode {node : DirectiveNode} (h : (directiveOfNode node).2 = []) :
    (directiveOfNode node).1.toNode = node := by
  show (⟨_, _, (argumentTable _ node.arguments).1.values, _, _⟩ : DirectiveNode) = node
  rw [values_argumentTable h]
  rfl

/-! ## Additions -/

theorem values_addTable {α : Type} {fault : Name → DocumentFault} {t added : Table Name α}
    (h : (addTable fault t added).2 = []) :
    (addTable fault t added).1.values = t.values ++ added.values :=
  values_addEntries h

/-- A body with an addition of its kind is written with the parts of the addition at the end. -/
theorem toBody_add {type type' : Name} {b : TypeBody} {c : Body} (hkind : b.kind = c.kind)
    (hc : (bodyOfNode type' c).2 = [])
    (h : (b.add type (Addition.ofBody type' c).1).2 = []) :
    (b.add type (Addition.ofBody type' c).1).1.toBody = b.toBody.append c := by
  have hfields {fs : Table Name Field} {gs : List FieldNode} {fault : Name → DocumentFault}
      (hgs : (fieldTable type' gs).2 = []) (hadd : (addTable fault fs (fieldTable type' gs).1).2 = []) :
      (addTable fault fs (fieldTable type' gs).1).1.values.map Field.toNode
        = fs.values.map Field.toNode ++ gs := by
    rw [values_addTable hadd, List.map_append, toNode_fieldTable hgs]
  cases b <;> cases c <;> try cases hkind
  case scalar.scalar => rfl
  case object.object is fs js gs =>
    obtain ⟨his, hfs⟩ := List.append_eq_nil_iff.mp h
    exact congrArg₂ Body.object (toList_addElements his) (hfields hc hfs)
  case interface.interface is fs js gs =>
    obtain ⟨his, hfs⟩ := List.append_eq_nil_iff.mp h
    exact congrArg₂ Body.interface (toList_addElements his) (hfields hc hfs)
  case union.union ms ns =>
    refine congrArg Body.union ((toList_addElements h).trans ?_)
    exact congrArg (ms.toList ++ ·) (toList_addElements hc)
  case enum.enum vs ws =>
    refine congrArg Body.enum ((values_addTable h).trans ?_)
    exact congrArg (vs.values ++ ·) (values_enumValueTable hc)
  case inputObject.inputObject fs gs =>
    refine congrArg Body.inputObject ((values_addTable h).trans ?_)
    exact congrArg (fs.values ++ ·) (values_inputFieldTable hc)

end SchemaWeave
