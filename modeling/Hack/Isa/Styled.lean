import Hack.Isa.Inst
import Hack.Text.Style
/-! How listings and traces colour an instruction. -/

set_option autoImplicit false

namespace Hack

open Text

/-- The coloured text of an instruction. -/
def Inst.styled : Inst → String
  | .load value => Styled.render [(Style.red, "@"), (Style.yellow, toString value.toNat)]
  | .compute dest comp jump =>
    (if dest.isNull then "" else Styled.render [(Style.blue, dest.mnemonic)] ++ "=") ++
      comp.mnemonic ++
      (if jump.isNull then "" else Styled.render [(Style.plain, ";"), (Style.red, jump.mnemonic)])

end Hack
