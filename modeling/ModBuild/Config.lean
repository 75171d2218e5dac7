import ModBuild.Deferral
import ModBuild.Text.CodePoint

/-!
# Build configuration

The templates that shape every build, and the owner that banners name.
-/

set_option autoImplicit false

namespace ModBuild

structure Config where
  header : Option Text := none
  footer : Option Text := none
  deferralTemplate : Option Text := none
  hostNamespace : Text := Deferral.defaultNamespace
  owner : List CodePoint := []
  deriving DecidableEq, Repr

end ModBuild
