import Dalvik.Renaming.Basic
import Dalvik.View

/-!
# Renamed views

A renamed view tells of the same parts under other names. A field or a method
takes its class, its name and its types from its renamed signature, so that
definitions and uses stay together.
-/

namespace Dalvik.Renaming

/-! ## Code -/

/-- Renames what an instruction refers to. -/
def instruction (r : Renaming) : Instruction Reference → Instruction Reference :=
  r.apply .instruction fun i => Id.run (i.mapReferences fun _ reference => r.reference reference)

/-- Renames the type of a handler. -/
def handler (r : Renaming) : Handler → Handler :=
  r.apply .handler fun h => { h with type := h.type.map r.type }

/-- Renames the types of the handlers of a try block. -/
def tryBlock (r : Renaming) : TryBlock → TryBlock :=
  r.apply .tryBlock fun t => { t with handlers := t.handlers.map r.handler }

/-- Renames the type of a local variable. -/
def debugEvent (r : Renaming) : DebugEvent → DebugEvent
  | .startLocal register name type signature => .startLocal register name (type.map r.type) signature
  | event => event

/-- Renames the type in an item of the debug information. -/
def debugItem (r : Renaming) : DebugItem → DebugItem :=
  r.apply .debugItem fun item => { item with event := r.debugEvent item.event }

/-- Renames what the body of a method refers to. -/
def code (r : Renaming) : CodeView → CodeView :=
  r.apply .code fun c => { c with
    instructions := c.instructions.map fun i => i.map r.instruction
    tries := c.tries.map fun tries => tries.map r.tryBlock
    debug := c.debug.map fun item => item.map r.debugItem }

/-! ## Classes and members -/

/-- Renames the type of an annotation and what its elements refer to. -/
def annotationItem (r : Renaming) : AnnotationView → AnnotationView :=
  r.apply .annotationItem fun a => { a with
    type := a.type.map r.type
    elements := a.elements.map fun elements => elements.map r.element }

/-- Renames a field. -/
def fieldView (r : Renaming) : FieldView → FieldView :=
  r.apply .field fun f =>
    let sig := f.sig.map r.field
    { f with
      definingClass := sig.map (·.definingClass)
      name := sig.map (·.name)
      type := sig.map (·.type)
      value := f.value.map fun value => value.map r.value
      annotations := f.annotations.map r.annotationItem }

/-- Renames a parameter, whose new type is given. -/
def parameter (r : Renaming) (p : Parameter) (type : String) : Result Parameter := do
  return { p with type, annotations := ← p.annotations.mapM fun a => (r.annotationItem a.view).toAnnotationItem }

/-- Renames a method. There are as many parameters as both signatures have. -/
def methodView (r : Renaming) : MethodView → MethodView :=
  r.apply .method fun m =>
    let sig := m.sig.map r.method
    { m with
      definingClass := sig.map (·.definingClass)
      name := sig.map (·.name)
      parameterTypes := sig.map (·.parameters)
      returnType := sig.map (·.returnType)
      parameters := do
        let types := (← sig).parameters
        ((← m.parameters).zip types).mapM fun (p, type) => r.parameter p type
      annotations := m.annotations.map r.annotationItem
      code := m.code.map fun code => code.map r.code }

/-- Renames a class. -/
def classView (r : Renaming) : ClassView → ClassView :=
  r.apply .classDef fun c => { c with
    type := c.type.map r.type
    superclass := c.superclass.map fun superclass => superclass.map r.type
    interfaces := c.interfaces.map fun interfaces => interfaces.map r.type
    annotations := c.annotations.map r.annotationItem
    staticFields := c.staticFields.map fun f => f.map r.fieldView
    instanceFields := c.instanceFields.map fun f => f.map r.fieldView
    directMethods := c.directMethods.map fun m => m.map r.methodView
    virtualMethods := c.virtualMethods.map fun m => m.map r.methodView }

/-- Renames what is in a file. -/
def fileView (r : Renaming) : FileView → FileView :=
  r.apply .file fun file => { file with classes := file.classes.map r.classView }

end Dalvik.Renaming
