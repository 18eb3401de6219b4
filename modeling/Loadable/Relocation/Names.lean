namespace Loadable.Relocation

def armNames : List (UInt32 × String) :=
  [(0, "R_ARM_NONE"),
    (1, "R_ARM_PC24"),
    (2, "R_ARM_ABS32"),
    (3, "R_ARM_REL32"),
    (10, "R_ARM_THM_CALL"),
    (28, "R_ARM_CALL"),
    (29, "R_ARM_JUMP24"),
    (30, "R_ARM_THM_JUMP24"),
    (38, "R_ARM_TARGET1"),
    (40, "R_ARM_V4BX"),
    (42, "R_ARM_PREL31"),
    (43, "R_ARM_MOVW_ABS_NC"),
    (44, "R_ARM_MOVT_ABS"),
    (47, "R_ARM_THM_MOVW_ABS_NC"),
    (48, "R_ARM_THM_MOVT_ABS"),
    (51, "R_ARM_THM_JUMP19"),
    (102, "R_ARM_THM_JUMP11")]

-- For messages only: modules keep the number.
def armName (rawType : UInt32) : String := (armNames.lookup rawType).getD "NONE"

end Loadable.Relocation
