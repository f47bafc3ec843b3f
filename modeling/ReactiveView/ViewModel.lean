import ReactiveView.Failure
import ReactiveView.Json

/-!
# View models

What a view is mounted from: the data it shows, the source of its template and its methods.
-/

namespace ReactiveView

/-- A view model; `κ` is what methods are made of. -/
structure ViewModel (κ : Type) where
  data : Fields Value := []
  template : String
  methods : Fields κ := []
  deriving Repr

namespace ViewModel

variable {κ : Type}

/-- A view model whose data is a JSON object. -/
def ofJson (data : Json) (template : String) : Except EngineError (ViewModel κ) :=
  match Value.ofJson data with
  | .object fields => .ok { data := fields, template }
  | other => .error (.invalidData other.display)

def withData (vm : ViewModel κ) (key : String) (v : Value) : ViewModel κ :=
  { vm with data := vm.data.insert key v }

def withMethod (vm : ViewModel κ) (name : String) (method : κ) : ViewModel κ :=
  { vm with methods := vm.methods.insert name method }

end ViewModel

end ReactiveView
