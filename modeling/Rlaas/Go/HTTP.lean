import Mathlib.Data.List.Basic

/-! What the handlers read of an `http.Request`. -/

set_option autoImplicit false

namespace Rlaas.Go

/-- A request; `header` is `Header.Get`, which is empty for an absent name. -/
structure HTTPRequest where
  method : String := "GET"
  path : String
  host : String := ""
  remoteAddr : String := ""
  header : String → String := fun _ => ""

end Rlaas.Go
