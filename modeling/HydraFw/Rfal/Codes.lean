import HydraFw.Rfal.Api

/-!
# The statuses of RFAL by number

The codes of `st_errno.h` that the anticollision, the frame coding and the tag readers compare with
or return.
-/

namespace Hydra

abbrev errNomem : ReturnCode := .other 1

abbrev errIo : ReturnCode := .other 3

abbrev errTimeout : ReturnCode := .other 4

abbrev errParam : ReturnCode := .other 7

abbrev errFraming : ReturnCode := .other 9

abbrev errProto : ReturnCode := .other 11

abbrev errInternal : ReturnCode := .other 12

abbrev errIgnore : ReturnCode := .other 18

abbrev errCrc : ReturnCode := .other 21

abbrev errPar : ReturnCode := .other 27

abbrev errRfCollision : ReturnCode := .other 29

abbrev errWrongState : ReturnCode := .other 33

/-- the test of `rfalRunBlocking` -/
def ReturnCode.busy (r : ReturnCode) : Bool := r = .errBusy

end Hydra
